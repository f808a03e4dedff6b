import GrpcAsr.Media.Messages

/-!
# Events of a transcription stream and the Document they fold into

The messages of `asr_service.proto`, and of `document.proto` the parts that the fold
writes. Text is UTF-8 bytes; times and counts have the width of their fields.
-/

namespace GrpcAsr.Asr

set_option autoImplicit false

open Media (Bytes ascii)

structure Word where
  text : Bytes
  startMs : UInt64
  endMs : UInt64
  probability : Float32

structure Segment where
  index : UInt32
  startMs : UInt64
  endMs : UInt64
  text : Bytes
  words : List Word
  avgLogprob : Option Float32
  speakerTurnNext : Bool
  speakerId : Bytes

structure MediaInfo where
  durationMs : UInt64
  audioCodec : Bytes
  sampleRateHz : UInt32
  channels : UInt32
  hasVideo : Bool
  videoCodec : Bytes

structure Keyframe where
  timestampMs : UInt64
  width : UInt32
  height : UInt32
  png : Bytes

structure TranscriptComplete where
  language : Bytes
  durationMs : UInt64
  segmentCount : UInt32
  tokenCount : UInt64
  keyframeCount : UInt32

structure TimeSpan where
  startMs : Float
  endMs : Float
  speaker : Option Bytes

structure IntSpan where
  start : Nat
  stop : Nat
  deriving DecidableEq

structure ProvenanceItem where
  time : TimeSpan
  charspan : Option IntSpan

structure TrackSource where
  startTime : Float
  endTime : Float

structure CollectorSource where
  collector : Bytes
  model : Bytes
  version : Bytes
  confidence : Option Float
  rawScore : Option Float
  rawScoreKind : Option Bytes

inductive SourceType
  | track (source : TrackSource)
  | collector (source : CollectorSource)

inductive ContentLayer
  | body
  | furniture
  deriving DecidableEq

inductive DocItemLabel
  | text
  | picture
  deriving DecidableEq

structure TextItemBase where
  selfRef : Bytes
  parent : Option Bytes
  label : DocItemLabel
  contentLayer : ContentLayer
  orig : Bytes
  text : Bytes
  prov : List ProvenanceItem
  source : List SourceType

structure ImageRef where
  mimetype : Bytes
  width : Float
  height : Float
  uri : Bytes

structure PictureItem where
  selfRef : Bytes
  parent : Option Bytes
  label : DocItemLabel
  contentLayer : ContentLayer
  image : ImageRef
  prov : List ProvenanceItem
  source : List SourceType

/-- A value of a custom field. -/
inductive Value
  | number (value : Float)
  | text (value : Bytes)
  | bool (value : Bool)

structure LanguageMetaField where
  code : Nat
  codeRaw : Bytes
  createdBy : Bytes

structure BaseMeta where
  language : Option LanguageMetaField
  customFields : List (Bytes × Value)

structure GroupItem where
  selfRef : Bytes
  contentLayer : ContentLayer
  children : List Bytes
  baseMeta : Option BaseMeta

structure DocumentOrigin where
  filename : Bytes
  mimetype : Bytes
  binaryHash : UInt64
  deriving DecidableEq

structure MediaMeta where
  durationMs : Option Float
  speakers : List Bytes
  codec : Option Bytes

structure Document where
  schemaName : Bytes
  name : Bytes
  origin : Option DocumentOrigin
  body : GroupItem
  furniture : GroupItem
  texts : List TextItemBase
  pictures : List PictureItem
  mediaMeta : Option MediaMeta
  sourceLanguage : Option Bytes

inductive TranscribeResponse
  | mediaInfo (info : MediaInfo)
  | partialSegment (segment : Segment)
  | finalSegment (segment : Segment)
  | keyframe (keyframe : Keyframe)
  | complete (complete : TranscriptComplete)
  | document (document : Document)
  | notSet

namespace TranscribeResponse

def final? : TranscribeResponse → Option Segment
  | .finalSegment segment => some segment
  | _ => none

def keyframe? : TranscribeResponse → Option Keyframe
  | .keyframe frame => some frame
  | _ => none

def complete? : TranscribeResponse → Option TranscriptComplete
  | .complete trailer => some trailer
  | _ => none

def document? : TranscribeResponse → Option Document
  | .document folded => some folded
  | _ => none

end TranscribeResponse

end GrpcAsr.Asr
