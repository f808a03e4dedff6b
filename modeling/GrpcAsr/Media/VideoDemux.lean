import GrpcAsr.Media.Messages

/-!
# Pipes of the video demuxer

`VideoDemux` reads stills and samples from the pipe of an ffmpeg child. Stills are cut out of a
growing buffer by walking PNG chunks; samples are put together from reads of any size. The reads
and the exit of the child are what the operating system gives; the output buffer of a sample
read is memory of a fixed length, which a write past its end would leave.
-/

namespace GrpcAsr.Media

set_option autoImplicit false

inductive DemuxError
  | tool (message : Bytes)
  | decode (message : Bytes)
  deriving DecidableEq

def kExecFailed : Int := 127

def firstLine (text : Bytes) : Bytes := text.takeWhile fun c => c != 13 && c != 10

def kSignature : Bytes := [0x89, 0x50, 0x4e, 0x47, 0x0d, 0x0a, 0x1a, 0x0a]

def readBe32 (bytes : Bytes) : UInt32 :=
  (bytes.getD 0 0).toUInt32 <<< 24 ||| (bytes.getD 1 0).toUInt32 <<< 16 |||
    (bytes.getD 2 0).toUInt32 <<< 8 ||| (bytes.getD 3 0).toUInt32

def pngDimensions (png : Bytes) : Except DemuxError (UInt32 × UInt32) :=
  if png.length < 24 || (png.drop 12).take 4 != ascii "IHDR" then
    .error (.decode (ascii "malformed PNG from keyframe extraction"))
  else .ok (readBe32 (png.drop 16), readBe32 (png.drop 20))

/-- What the sink of the keyframes is called with. -/
structure Still where
  timestampMs : UInt64
  width : UInt32
  height : UInt32
  png : Bytes
  deriving DecidableEq

/-- The bytes of a chunk by its header: the header, the data and their checksum. -/
def chunkTotal (buffer : Bytes) (offset : Nat) : Nat := 8 + (readBe32 (buffer.drop offset)).toNat + 4

def isEnd (buffer : Bytes) (offset : Nat) : Bool := (buffer.drop (offset + 4)).take 4 == ascii "IEND"

/-- The walk over the chunks of one image, to the end of its last one if that is there. -/
def imageEnd (buffer : Bytes) (offset : Nat) : Option Nat :=
  if buffer.length < offset + 8 then none
  else if buffer.length < offset + chunkTotal buffer offset then none
  else if isEnd buffer offset then some (offset + chunkTotal buffer offset)
  else imageEnd buffer (offset + chunkTotal buffer offset)
termination_by buffer.length - offset
decreasing_by
  rw [chunkTotal] at *
  omega

structure StillStream where
  buffer : Bytes
  frameIndex : UInt64
  emitted : List Still

theorem imageEnd_bounds {buffer : Bytes} {offset stop : Nat} (h : imageEnd buffer offset = some stop) :
    offset < stop ∧ stop ≤ buffer.length := by
  induction offset using imageEnd.induct buffer with
  | case1 offset hShort =>
    rw [imageEnd, if_pos hShort] at h
    cases h
  | case2 offset hHeader hShort =>
    rw [imageEnd, if_neg hHeader, if_pos hShort] at h
    cases h
  | case3 offset hHeader hChunk hEnd =>
    rw [imageEnd, if_neg hHeader, if_neg hChunk, if_pos hEnd] at h
    cases h
    rw [chunkTotal] at *
    omega
  | case4 offset hHeader hChunk hEnd ih =>
    rw [imageEnd, if_neg hHeader, if_neg hChunk, if_neg hEnd] at h
    have hNext := ih h
    omega

/-- Everything that is complete goes to the sink; false once the sink asked to stop. -/
def emitComplete (interval : UInt32) (sink : List Still → Still → Bool) (s : StillStream) :
    Except DemuxError Bool × StillStream :=
  if s.buffer.length < 8 then (.ok true, s)
  else if !kSignature.isPrefixOf s.buffer then
    (.error (.decode (ascii "keyframe stream lost PNG framing")), s)
  else
    match _hEnd : imageEnd s.buffer 8 with
    | none => (.ok true, s)
    | some offset =>
      let png := s.buffer.take offset
      let rest := s.buffer.drop offset
      match pngDimensions png with
      | .error error => (.error error, { s with buffer := rest })
      | .ok (width, height) =>
        let still := ⟨s.frameIndex * interval.toUInt64 * 1000, width, height, png⟩
        if sink s.emitted still then
          emitComplete interval sink ⟨rest, s.frameIndex + 1, s.emitted ++ [still]⟩
        else (.ok false, ⟨rest, s.frameIndex, s.emitted ++ [still]⟩)
termination_by s.buffer.length
decreasing_by
  have hBounds := imageEnd_bounds _hEnd
  rw [List.length_drop]
  omega

/-- The reads of the pipe, up to one of nothing, which is its end. -/
def readKeyframes (interval : UInt32) (sink : List Still → Still → Bool) :
    List Bytes → StillStream → Except DemuxError Bool × StillStream
  | [], s => (.ok true, s)
  | read :: reads, s =>
    if read.isEmpty then (.ok true, s)
    else
      match emitComplete interval sink { s with buffer := s.buffer ++ read } with
      | (.ok true, next) => readKeyframes interval sink reads next
      | stopped => stopped

def extractKeyframes (ffmpeg : Bytes) (interval : UInt32) (sink : List Still → Still → Bool)
    (reads : List Bytes) (exitCode : Int) (stderrTail : Bytes) :
    Except DemuxError Unit × List Still :=
  match readKeyframes interval sink reads ⟨[], 0, []⟩ with
  | (.error error, s) => (.error error, s.emitted)
  | (.ok false, s) => (.ok (), s.emitted)
  | (.ok true, s) =>
    if exitCode = kExecFailed then
      (.error (.tool (ffmpeg ++ ascii " could not be executed")), s.emitted)
    else if exitCode ≠ 0 then
      (.error (.decode (ascii "ffmpeg keyframe extraction failed: " ++ firstLine stderrTail)),
        s.emitted)
    else if !s.buffer.isEmpty then
      (.error (.decode (ascii "keyframe stream ended mid-frame")), s.emitted)
    else (.ok (), s.emitted)

/-- The pipe of the audio child: what is to come, and how much each read gives. -/
structure AudioPipe where
  rest : Bytes
  sizes : Nat → Nat

/-- A read gives at least a byte while there is one and room for it, and nothing at the end. -/
def AudioPipe.read (pipe : AudioPipe) (maxBytes : Nat) : Bytes × AudioPipe :=
  let count := min (max 1 (pipe.sizes 0)) maxBytes
  (pipe.rest.take count, ⟨pipe.rest.drop count, fun k => pipe.sizes (k + 1)⟩)

/-- A write into the output buffer, if it stays inside. -/
def memcpy (buffer : Bytes) (place : Nat) (data : Bytes) : Option Bytes :=
  if place + data.length ≤ buffer.length then
    some (buffer.take place ++ data ++ buffer.drop (place + data.length))
  else none

inductive Fill
  | fault
  | midSample
  | ended
  | filled (buffer : Bytes) (have_ : Nat)

theorem AudioPipe.read_nonempty {pipe : AudioPipe} {maxBytes : Nat} (h : ¬ (pipe.read maxBytes).1.isEmpty) :
    0 < (pipe.read maxBytes).1.length :=
  List.length_pos_of_ne_nil fun hEmpty => h (List.isEmpty_iff.mpr hEmpty)

/-- The reads until there is a whole sample. -/
def fillSample (wantBytes : Nat) (pipe : AudioPipe) (buffer : Bytes) (have_ : Nat) : Fill × AudioPipe :=
  if 4 ≤ have_ then (.filled buffer have_, pipe)
  else
    let data := (pipe.read (sizeSub wantBytes have_)).1
    let next := (pipe.read (sizeSub wantBytes have_)).2
    if _hEmpty : data.isEmpty then (if have_ ≠ 0 then .midSample else .ended, next)
    else
      match memcpy buffer have_ data with
      | none => (.fault, next)
      | some buffer => fillSample wantBytes next buffer (have_ + data.length)
termination_by 4 - have_
decreasing_by
  have hRead := AudioPipe.read_nonempty _hEmpty
  omega

def floatOf (bytes : Bytes) : Float32 :=
  Float32.ofBits ((bytes.getD 3 0).toUInt32 <<< 24 ||| (bytes.getD 2 0).toUInt32 <<< 16 |||
    (bytes.getD 1 0).toUInt32 <<< 8 ||| (bytes.getD 0 0).toUInt32)

def scrubSample (sample : Float32) : Float32 :=
  if sample.isNaN then 0
  else if sample < -1 then -1
  else if sample > 1 then 1
  else sample

/-- The groups of four bytes that a buffer holds. -/
def quads : Bytes → List Bytes
  | a :: b :: c :: d :: rest => [a, b, c, d] :: quads rest
  | _ => []

/-- The end of a call: the groups it read and the samples it leaves in the buffer, an exception,
or a write outside of the buffer. -/
inductive AudioRead
  | samples (raw : List Bytes) (out : List Float32)
  | thrown (error : DemuxError)
  | fault

structure AudioReader where
  pipe : AudioPipe
  partialSample : Bytes

def readAudio (reader : AudioReader) (buffer : Bytes) (maxSamples : Nat) : AudioRead × AudioReader :=
  match memcpy buffer 0 reader.partialSample with
  | none => (.fault, reader)
  | some buffer =>
    match fillSample (maxSamples * 4) reader.pipe buffer reader.partialSample.length with
    | (.fault, pipe) => (.fault, ⟨pipe, []⟩)
    | (.midSample, pipe) =>
      (.thrown (.decode (ascii "audio stream ended mid-sample")), ⟨pipe, []⟩)
    | (.ended, pipe) => (.samples [] [], ⟨pipe, []⟩)
    | (.filled buffer have_, pipe) =>
      let whole := have_ / 4
      let raw := quads (buffer.take (whole * 4))
      (.samples raw (raw.map fun bytes => scrubSample (floatOf bytes)),
        ⟨pipe, (buffer.take have_).drop (whole * 4)⟩)

/-- Calls until one returns nothing or does not return, each with a buffer of its own. -/
def audioCalls (buffers : Nat → Bytes) (maxSamples : Nat → Nat) :
    Nat → Nat → AudioReader → List (List Bytes) × Option AudioRead
  | 0, _, _ => ([], none)
  | fuel + 1, call, reader =>
    match readAudio reader (buffers call) (maxSamples call) with
    | (.samples (first :: raw) _, next) =>
      let later := audioCalls buffers maxSamples fuel (call + 1) next
      ((first :: raw) :: later.1, later.2)
    | (last, _) => ([], some last)

end GrpcAsr.Media
