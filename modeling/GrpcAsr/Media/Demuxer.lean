import GrpcAsr.Media.Decoder

/-!
# The demuxer loop

The decoder reads packets, describes the media whenever its description has changed, relays
the packets in fragments and decodes the audio of the selected tracks. The media library is
a parameter: each turn of the loop carries the library's answers, and the end of the packets
is the end of the turns.
-/

namespace GrpcAsr.Media.Demux

open Emitting

set_option autoImplicit false

def kEventBytes : Nat := 256 * 1024

def kPacketBytes : Nat := 16 * 1024 * 1024

structure NativeMetadata where
  key : Bytes
  value : Bytes
  deriving DecidableEq, Inhabited

/-- Side data as the library has it; the type name of an unknown type is none. -/
structure NativeSideData where
  type : Int
  name : Option Bytes
  data : Bytes

structure SideData where
  nativeType : Int
  typeName : Bytes
  data : Bytes
  deriving DecidableEq, Inhabited

def NativeSideData.message (side : NativeSideData) : SideData :=
  ⟨side.type, side.name.getD [], side.data⟩

inductive AVMediaType
  | audio | video | subtitle | data | attachment | other (value : Int)
  deriving DecidableEq, Inhabited

inductive TrackKind
  | unspecified | audio | video | subtitle | data | attachment
  deriving DecidableEq, Inhabited

def kind : AVMediaType → TrackKind
  | .audio => .audio
  | .video => .video
  | .subtitle => .subtitle
  | .data => .data
  | .attachment => .attachment
  | .other _ => .unspecified

/-- A track as the library has it. -/
structure NativeTrack where
  id : Int
  codecType : AVMediaType
  nativeType : Int
  codecId : Int
  codecName : Bytes
  codecTag : Nat
  extradata : Bytes
  timeBase : AVRational
  startTime : Option Int
  duration : Option Int
  metadata : List NativeMetadata
  sampleRate : Int
  channels : Int
  width : Int
  height : Int
  disposition : Nat
  bitRate : Int
  profile : Int
  level : Int
  sideData : List NativeSideData

/-- An opened container as the library has it. -/
structure FormatContext where
  name : Bytes
  longName : Option Bytes
  startTime : Option Int
  duration : Option Int
  metadata : List NativeMetadata
  streams : List NativeTrack

structure TrackInfo where
  trackId : Nat
  nativeId : Int
  kind : TrackKind
  nativeType : Int
  codecId : Int
  codecName : Bytes
  codecTag : Nat
  codecExtradata : Bytes
  timeBase : AVRational
  startTime : Option Int
  duration : Option Int
  metadata : List NativeMetadata
  sampleRate : Nat
  channels : Nat
  width : Nat
  height : Nat
  dispositionFlags : Nat
  bitRate : Int
  profile : Int
  level : Int
  sideData : List SideData
  deriving DecidableEq

structure MediaInfo where
  containerName : Bytes
  containerDescription : Bytes
  startTimeUs : Option Int
  durationUs : Option Int
  metadata : List NativeMetadata
  tracks : List TrackInfo
  deriving DecidableEq

/-- A packet as the library has it. -/
structure NativePacket where
  streamIndex : Int
  data : Bytes
  pts : Option Int
  dts : Option Int
  duration : Int
  flags : Nat
  position : Int
  sideData : List NativeSideData

structure EncodedPacket where
  packetNumber : Nat
  trackId : Nat
  fragmentOffset : Nat
  packetBytes : Nat
  data : Bytes
  pts : Option Int
  dts : Option Int
  duration : Int
  timeBase : AVRational
  nativeFlags : Nat
  keyframe : Bool
  sourceBytePosition : Option Int
  sideData : List SideData
  deriving DecidableEq

inductive DecoderEvent
  | mediaInfo (info : MediaInfo)
  | packet (packet : EncodedPacket)
  | audio (chunk : AudioChunk)

/-- Time conversion and layouts, message sizes and serialization, and the callback. -/
structure DemuxEnv where
  rescaleQ : Int → AVRational → AVRational → Int
  sameLayout : ChannelLayout → ChannelLayout → Bool
  timeBase : Nat → AVRational
  infoSize : MediaInfo → Nat
  packetSize : EncodedPacket → Nat
  serialize : MediaInfo → Bytes
  emit : DecoderEvent → Option Exception

def DemuxEnv.audio (env : DemuxEnv) : DecodeEnv :=
  ⟨env.rescaleQ, env.sameLayout, env.timeBase, fun chunk => env.emit (.audio chunk)⟩

/-- What the library answers while one packet is read and handled. Every call throws what the
source callback threw, and a cancellation. The last failure comes after the frames. -/
structure PacketTurn where
  packet : Except Exception NativePacket
  context : FormatContext
  openCodec : Option Exception
  frames : List (DecodedFrame × FrameReplies)
  failure : Option Exception

/-- The same at the end of a track. -/
structure FlushTurn where
  frames : List (DecodedFrame × FrameReplies)
  failure : Option Exception
  drain : FlushReplies

structure DemuxReplies where
  opened : Option Exception
  context : FormatContext
  turns : List PacketTurn
  cancelled : Option Exception
  flush : Nat → FlushTurn
  finalContext : FormatContext

structure Decoder where
  packets : Nat
  description : Bytes
  tracks : AudioTracks
  opened : List Nat

abbrev DemuxOutcome := Outcome Decoder DecoderEvent Exception

/-! ## Descriptions -/

/-- Keys and values are cut off behind the limit before they are counted. -/
def metadata : List NativeMetadata → List NativeMetadata → Nat → Except Exception (List NativeMetadata)
  | out, [], _ => .ok out
  | out, entry :: entries, total => do
    let cut := fun text : Bytes => text.take (kEventBytes + 1)
    let total := total + (cut entry.key).length + (cut entry.value).length
    limit (total ≤ kEventBytes && out.length < 256) "native metadata exceeds limit"
    metadata (out ++ [⟨cut entry.key, cut entry.value⟩]) entries total

def trackSideData : List NativeSideData → Nat → Except Exception (List SideData)
  | [], _ => .ok []
  | side :: sides, total => do
    limit (side.data.length ≤ kEventBytes / 2 - total) "track side data exceeds limit"
    let rest ← trackSideData sides (total + side.data.length)
    return side.message :: rest

def trackInfo (i : Nat) (track : NativeTrack) : Except Exception TrackInfo := do
  limit (track.extradata.length ≤ kEventBytes) "codec initialization exceeds limit"
  let entries ← metadata [] track.metadata 0
  limit (track.sideData.length ≤ 128) "too many track side-data entries"
  let sideData ← trackSideData track.sideData 0
  return {
    trackId := i
    nativeId := track.id
    kind := kind track.codecType
    nativeType := track.nativeType
    codecId := track.codecId
    codecName := track.codecName
    codecTag := track.codecTag
    codecExtradata := track.extradata
    timeBase := track.timeBase
    startTime := track.startTime
    duration := track.duration
    metadata := entries
    sampleRate := track.sampleRate.toNat
    channels := track.channels.toNat
    width := track.width.toNat
    height := track.height.toNat
    dispositionFlags := track.disposition
    bitRate := track.bitRate
    profile := track.profile
    level := track.level
    sideData := sideData }

/-- The size of the description is checked after each track. -/
def addTracks (env : DemuxEnv) (info : MediaInfo) : List (NativeTrack × Nat) → Except Exception MediaInfo
  | [] => .ok info
  | (track, i) :: rest => do
    let added ← trackInfo i track
    let info := { info with tracks := info.tracks ++ [added] }
    limit (env.infoSize info ≤ kEventBytes) "media description exceeds limit"
    addTracks env info rest

def mediaInfo (env : DemuxEnv) (context : FormatContext) : Except Exception MediaInfo := do
  let entries ← metadata [] context.metadata 0
  limit (context.streams.length ≤ 64) "too many media tracks"
  addTracks env
    { containerName := context.name
      containerDescription := context.longName.getD []
      startTimeUs := context.startTime
      durationUs := context.duration
      metadata := entries
      tracks := [] }
    context.streams.zipIdx

/-! ## Packets -/

/-- The fragments of a packet with their offsets; an empty packet has one. -/
def fragments (offset : Nat) (data : Bytes) : List (Nat × Bytes) :=
  (offset, data.take (kEventBytes / 2)) ::
    if data.length ≤ kEventBytes / 2 then []
    else fragments (offset + kEventBytes / 2) (data.drop (kEventBytes / 2))
termination_by data.length
decreasing_by
  rw [List.length_drop]
  unfold kEventBytes at *
  omega

def addSideData (env : DemuxEnv) (out : EncodedPacket) :
    List NativeSideData → Except Exception EncodedPacket
  | [] => .ok out
  | side :: sides => do
    limit (side.data.length ≤ kEventBytes / 2) "packet side data exceeds limit"
    let out := { out with sideData := out.sideData ++ [side.message] }
    limit (env.packetSize out < kEventBytes / 2) "packet side data exceeds limit"
    addSideData env out sides

namespace Decoder

variable (env : DemuxEnv)

def start : Decoder := ⟨0, [], fun _ => default, []⟩

def describe (d : Decoder) (context : FormatContext) : DemuxOutcome :=
  match mediaInfo env context with
  | .error e => ⟨d, [], some e⟩
  | .ok info =>
    if env.serialize info = d.description then ⟨d, [], none⟩
    else ⟨{ d with description := env.serialize info }, [.mediaInfo info], env.emit (.mediaInfo info)⟩

/-- A packet without its payload. -/
def header (number : Nat) (track : Nat) (timeBase : AVRational) (packet : NativePacket) : EncodedPacket :=
  { packetNumber := number
    trackId := track
    fragmentOffset := 0
    packetBytes := packet.data.length
    data := []
    pts := packet.pts
    dts := packet.dts
    duration := packet.duration
    timeBase := timeBase
    nativeFlags := packet.flags
    keyframe := packet.flags.testBit 0
    sourceBytePosition := if 0 ≤ packet.position then some packet.position else none
    sideData := [] }

/-- The message of a fragment; side data goes with the first one. -/
def fragment (packet : NativePacket) (out : EncodedPacket) (piece : Nat × Bytes) :
    Except Exception EncodedPacket := do
  let out := { out with fragmentOffset := piece.1 }
  let out ←
    if piece.1 = 0 then do
      limit (packet.sideData.length ≤ 128) "too many side-data entries"
      addSideData env out packet.sideData
    else .ok out
  return { out with data := piece.2 }

def emitFragment (packet : NativePacket) (out : EncodedPacket) (d : Decoder) (piece : Nat × Bytes) :
    DemuxOutcome :=
  match fragment env packet out piece with
  | .error e => ⟨d, [], some e⟩
  | .ok message => ⟨d, [.packet message], env.emit (.packet message)⟩

def emitPacket (d : Decoder) (track : Nat) (timeBase : AVRational) (packet : NativePacket) :
    DemuxOutcome :=
  if d.packets = 2 ^ 64 - 1 then
    ⟨d, [], some (.failure ⟨.resourceExhausted, "packet counter exhausted"⟩)⟩
  else
    runAll (emitFragment env packet (header (d.packets + 1) track timeBase packet))
      { d with packets := d.packets + 1 } (fragments 0 packet.data)

/-! ## Audio -/

/-- The calls on the audio of a track. -/
def decode (d : Decoder) (calls : List (Nat × DecodeCall)) : DemuxOutcome :=
  let o := runAll (AudioTracks.call env.audio) d.tracks calls
  ⟨{ d with tracks := o.state }, o.emitted.map .audio, o.error⟩

def throws (d : Decoder) (e : Option Exception) : DemuxOutcome := ⟨d, [], e⟩

def frameCalls (track : Nat) (frames : List (DecodedFrame × FrameReplies)) : List (Nat × DecodeCall) :=
  frames.map fun (frame, replies) => (track, .frame frame replies)

/-- A track is opened with its first packet. -/
def decodePacket (d : Decoder) (track : Nat) (packet : NativePacket) (turn : PacketTurn) :
    DemuxOutcome :=
  if packet.flags.testBit 1 then
    d.throws (some (.failure ⟨.invalidArgument, "corrupt audio packet"⟩))
  else
    let opening :=
      if d.opened.contains track then d.throws none
      else ⟨{ d with opened := d.opened ++ [track] }, [], turn.openCodec⟩
    (opening.next fun d => d.decode env (frameCalls track turn.frames)).next fun d =>
      d.throws turn.failure

/-- The tracks of which audio is decoded. -/
def selects (options : DecodeOptions) (track : Nat) (codecType : AVMediaType) : Bool :=
  options.emitAudio && codecType == .audio &&
    (options.audioTrackIds.isEmpty || options.audioTrackIds.contains track)

/-- One turn of the loop. -/
def turn (options : DecodeOptions) (d : Decoder) (turn : PacketTurn) : DemuxOutcome :=
  match turn.packet with
  | .error e => d.throws (some e)
  | .ok packet =>
    if kPacketBytes < packet.data.length then
      d.throws (some (.failure ⟨.resourceExhausted, "native packet exceeds limit"⟩))
    else
      match if packet.streamIndex < 0 then none else turn.context.streams[packet.streamIndex.toNat]? with
      | none => d.throws (some (.failure ⟨.invalidArgument, "packet has invalid track index"⟩))
      | some native =>
        let track := packet.streamIndex.toNat
        ((d.describe env turn.context).next fun d =>
          if options.emitPackets then d.emitPacket env track native.timeBase packet
          else d.throws none).next fun d =>
          if selects options track native.codecType then d.decodePacket env track packet turn
          else d.throws none

/-- A PCM file that says how long it is was cut off. -/
def truncated (context : FormatContext) (track : Nat) (state : AudioState) : Bool :=
  context.streams[track]?.any fun native =>
    let expected := env.rescaleQ (native.duration.getD 0) native.timeBase ⟨1, state.inputRate⟩
    context.name == ascii "wav" && native.duration.any (fun duration => decide (0 < duration)) &&
      0 < state.inputRate && (ascii "pcm_").isPrefixOf native.codecName &&
      0 < expected && state.inputSamples < expected

/-- The end of a track. -/
def flush (replies : DemuxReplies) (d : Decoder) (track : Nat) : DemuxOutcome :=
  let flush := replies.flush track
  (((d.decode env (frameCalls track flush.frames)).next fun d => d.throws flush.failure).next
    fun d => d.decode env [(track, .drain flush.drain)]).next fun d =>
      if truncated env replies.finalContext track (d.tracks track) then
        d.throws (some (.failure ⟨.invalidArgument, "truncated PCM WAV data"⟩))
      else d.throws none

def selectedAbsent (options : DecodeOptions) (d : Decoder) : Option Exception :=
  if options.audioTrackIds.all d.opened.contains then none
  else some (.failure ⟨.invalidArgument, "selected audio track absent or empty"⟩)

def run (options : DecodeOptions) (replies : DemuxReplies) : DemuxOutcome :=
  (((((start.throws replies.opened).next fun d => d.describe env replies.context).next fun d =>
    runAll (turn env options) d replies.turns).next fun d => d.throws replies.cancelled).next fun d =>
      (runAll (flush env replies) d (d.opened.mergeSort (· ≤ ·))).next fun d =>
        d.throws (selectedAbsent options d)).next fun d => d.describe env replies.finalContext

end Decoder

end GrpcAsr.Media.Demux
