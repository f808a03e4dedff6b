import GrpcAsr.Asr.Events

/-!
# The fold of the event stream into a Document

`AsrDocumentFold` takes the events in the order they are written. Finals become text
items and keyframes pictures, both listed in the body in arrival order; container facts
and the trailer's aggregates become metadata; naming the source touches nothing else.
The parse of a language enumerator is generated code and comes as a parameter.
-/

namespace GrpcAsr.Asr

set_option autoImplicit false

open Media (Bytes ascii)

structure FoldOptions where
  wordProvenance : Bool

structure AsrDocumentFold where
  document : Document
  model : Bytes
  version : Bytes
  options : FoldOptions
  finished : Bool

def isBlank (c : UInt8) : Bool := c == 32 || c == 9 || c == 13 || c == 10

def trimmed (text : Bytes) : Bytes := ((text.dropWhile isBlank).reverse.dropWhile isBlank).reverse

/-- Code points that start in a range of bytes: those that are no continuation bytes. -/
def codePoints (text : Bytes) (start stop : Nat) : Nat :=
  ((text.take stop).drop start).countP fun c => c &&& 0xC0 != 0x80

/-- `std::string::find`: the first occurrence at or after a position. -/
def findFrom (text needle : Bytes) (position : Nat) : Option Nat :=
  (List.range' position (text.length + 1 - position)).find? fun at_ =>
    needle.isPrefixOf (text.drop at_)

def timeSpan (startMs endMs : UInt64) (speaker : Bytes) : TimeSpan where
  startMs := startMs.toFloat
  endMs := endMs.toFloat
  speaker := if speaker.isEmpty then none else some speaker

def setField (fields : List (Bytes × Value)) (key : String) (value : Value) :
    List (Bytes × Value) :=
  if fields.any fun field => field.1 == ascii key then
    fields.map fun field => if field.1 == ascii key then (field.1, value) else field
  else fields ++ [(ascii key, value)]

def toUpper (c : UInt8) : UInt8 := if 97 ≤ c && c ≤ 122 then c - 32 else c

/-- The enumerator named by the primary subtag; zero is the unspecified one. -/
def languageLabel (parse : Bytes → Option Nat) (code : Bytes) : Nat :=
  (parse (ascii "HUMAN_LANGUAGE_LABEL_" ++ (code.takeWhile (· != 45)).map toUpper)).getD 0

namespace AsrDocumentFold

def create (model version : Bytes) (options : FoldOptions) : AsrDocumentFold where
  document :=
    { schemaName := ascii "docling_document_v2"
      name := []
      origin := none
      body := ⟨ascii "#/body", .body, [], none⟩
      furniture := ⟨ascii "#/furniture", .furniture, [], none⟩
      texts := []
      pictures := []
      mediaMeta := none
      sourceLanguage := none }
  model := model
  version := version
  options := options
  finished := false

def setSource (fold : AsrDocumentFold) (origin : DocumentOrigin) : AsrDocumentFold :=
  { fold with document := { fold.document with name := origin.filename, origin := some origin } }

/-- The two attributions every item carries. -/
def sources (fold : AsrDocumentFold) (startSeconds endSeconds : Float)
    (avgLogprob : Option Float32) : List SourceType :=
  [ .track ⟨startSeconds, if endSeconds > startSeconds then endSeconds else startSeconds + 0.001⟩,
    .collector
      { collector := ascii "asr"
        model := fold.model
        version := fold.version
        confidence := avgLogprob.map fun score =>
          let confidence := score.toFloat.exp
          if confidence > 1.0 then 1.0 else confidence
        rawScore := avgLogprob.map Float32.toFloat
        rawScoreKind := avgLogprob.map fun _ => ascii "avg_logprob" } ]

def mediaOf (document : Document) : MediaMeta := document.mediaMeta.getD ⟨none, [], none⟩

def metaOf (group : GroupItem) : BaseMeta := group.baseMeta.getD ⟨none, []⟩

def registerSpeaker (document : Document) (speaker : Bytes) : Document :=
  if (mediaOf document).speakers.contains speaker then document
  else
    { document with
      mediaMeta := some
        { mediaOf document with speakers := (mediaOf document).speakers ++ [speaker] } }

def onMediaInfo (fold : AsrDocumentFold) (info : MediaInfo) : AsrDocumentFold :=
  let fields := (metaOf fold.document.body).customFields
  let fields := setField fields "asr.audio_codec" (.text info.audioCodec)
  let fields := setField fields "asr.sample_rate_hz" (.number info.sampleRateHz.toFloat)
  let fields := setField fields "asr.channels" (.number info.channels.toFloat)
  let fields := setField fields "asr.has_video" (.bool info.hasVideo)
  let fields :=
    if info.hasVideo then setField fields "asr.video_codec" (.text info.videoCodec) else fields
  let fields :=
    if info.durationMs ≠ 0 then
      setField fields "asr.declared_duration_ms" (.number info.durationMs.toFloat)
    else fields
  let mediaMeta := mediaOf fold.document
  let mediaMeta :=
    if info.audioCodec.isEmpty then mediaMeta else { mediaMeta with codec := some info.audioCodec }
  let mediaMeta :=
    if info.durationMs ≠ 0 then { mediaMeta with durationMs := some info.durationMs.toFloat }
    else mediaMeta
  { fold with
    document :=
      { fold.document with
        body :=
          { fold.document.body with
            baseMeta := some { metaOf fold.document.body with customFields := fields } }
        mediaMeta := some mediaMeta } }

/-- The cursors of the word walk: bytes and code points passed. -/
structure WordCursor where
  bytes : Nat
  points : Nat

/-- The provenance of one word, which moves the cursors if the word is found. -/
def locateWord (text : Bytes) (segment : Segment) (cursor : WordCursor) (word : Word) :
    WordCursor × ProvenanceItem :=
  let time := timeSpan word.startMs word.endMs segment.speakerId
  let needle := trimmed word.text
  if needle.isEmpty then (cursor, ⟨time, none⟩)
  else
    match findFrom text needle cursor.bytes with
    | none => (cursor, ⟨time, none⟩)
    | some found =>
      let start := cursor.points + codePoints text cursor.bytes found
      let stop := start + codePoints text found (found + needle.length)
      (⟨found + needle.length, stop⟩, ⟨time, some ⟨start, stop⟩⟩)

def wordProvenance (text : Bytes) (segment : Segment) : WordCursor → List Word → List ProvenanceItem
  | _, [] => []
  | cursor, word :: words =>
    let located := locateWord text segment cursor word
    located.2 :: wordProvenance text segment located.1 words

/-- The pointer of an item: the list it is in and its place there. -/
def itemRef (arena : String) (place : Nat) : Bytes := ascii (arena ++ toString place)

def seconds (ms : UInt64) : Float := ms.toFloat / 1000.0

def textItem (fold : AsrDocumentFold) (segment : Segment) : TextItemBase :=
  let text := trimmed segment.text
  { selfRef := itemRef "#/texts/" fold.document.texts.length
    parent := some (ascii "#/body")
    label := .text
    contentLayer := .body
    orig := segment.text
    text := text
    prov :=
      ⟨timeSpan segment.startMs segment.endMs segment.speakerId,
        some ⟨0, codePoints text 0 text.length⟩⟩ ::
        (if fold.options.wordProvenance then wordProvenance text segment ⟨0, 0⟩ segment.words
        else [])
    source := fold.sources (seconds segment.startMs) (seconds segment.endMs) segment.avgLogprob }

def pictureItem (fold : AsrDocumentFold) (keyframe : Keyframe) : PictureItem where
  selfRef := itemRef "#/pictures/" fold.document.pictures.length
  parent := some (ascii "#/body")
  label := .picture
  contentLayer := .body
  image :=
    { mimetype := ascii "image/png"
      width := keyframe.width.toFloat
      height := keyframe.height.toFloat
      uri := ascii ("keyframe:" ++ toString keyframe.timestampMs.toNat) }
  prov := [⟨timeSpan keyframe.timestampMs keyframe.timestampMs [], none⟩]
  source := fold.sources (seconds keyframe.timestampMs) (seconds keyframe.timestampMs) none

def addChild (body : GroupItem) (ref : Bytes) : GroupItem :=
  { body with children := body.children ++ [ref] }

def onFinalSegment (fold : AsrDocumentFold) (segment : Segment) : AsrDocumentFold :=
  let item := fold.textItem segment
  let document :=
    { fold.document with
      texts := fold.document.texts ++ [item]
      body := addChild fold.document.body item.selfRef }
  { fold with
    document :=
      if segment.speakerId.isEmpty then document else registerSpeaker document segment.speakerId }

def onKeyframe (fold : AsrDocumentFold) (keyframe : Keyframe) : AsrDocumentFold :=
  let item := fold.pictureItem keyframe
  { fold with
    document :=
      { fold.document with
        pictures := fold.document.pictures ++ [item]
        body := addChild fold.document.body item.selfRef } }

def onComplete (parse : Bytes → Option Nat) (fold : AsrDocumentFold)
    (complete : TranscriptComplete) : AsrDocumentFold :=
  let spoken := !complete.language.isEmpty
  let fields := (metaOf fold.document.body).customFields
  let fields := setField fields "asr.duration_ms" (.number complete.durationMs.toFloat)
  let fields := setField fields "asr.token_count" (.number complete.tokenCount.toFloat)
  { fold with
    document :=
      { fold.document with
        body :=
          { fold.document.body with
            baseMeta := some
              { language :=
                  if spoken then
                    some ⟨languageLabel parse complete.language, complete.language, ascii "asr"⟩
                  else (metaOf fold.document.body).language
                customFields := fields } }
        sourceLanguage := if spoken then some complete.language else fold.document.sourceLanguage
        mediaMeta :=
          if complete.durationMs ≠ 0 then
            some { mediaOf fold.document with durationMs := some complete.durationMs.toFloat }
          else fold.document.mediaMeta }
    finished := true }

def consume (parse : Bytes → Option Nat) (fold : AsrDocumentFold) (event : TranscribeResponse) :
    AsrDocumentFold :=
  if fold.finished then fold
  else
    match event with
    | .mediaInfo info => fold.onMediaInfo info
    | .finalSegment segment => fold.onFinalSegment segment
    | .keyframe keyframe => fold.onKeyframe keyframe
    | .complete complete => fold.onComplete parse complete
    | .partialSegment _ | .document _ | .notSet => fold

def consumeAll (parse : Bytes → Option Nat) (fold : AsrDocumentFold)
    (events : List TranscribeResponse) : AsrDocumentFold := events.foldl (consume parse) fold

theorem consumeAll_snoc (parse : Bytes → Option Nat) (fold : AsrDocumentFold)
    (events : List TranscribeResponse) (event : TranscribeResponse) :
    fold.consumeAll parse (events ++ [event]) = (fold.consumeAll parse events).consume parse event :=
  List.foldl_append

end AsrDocumentFold

end GrpcAsr.Asr
