import GrpcAsr.Asr.Call
import GrpcAsr.Media.VideoDemux

/-!
# The in-process decoder

miniaudio pulls encoded bytes out of the growing upload through two callbacks, which keep a
cursor into the byte stream. What miniaudio does between the callbacks is its own affair: a call
into it is a program over the callbacks. The upload loop is the other side of the stream.
-/

namespace GrpcAsr.Asr

set_option autoImplicit false

open Interaction
open Media (Bytes scrubSample)

/-- What the consumer side asks of the byte stream. -/
inductive StreamRequest
  | waitForPrefix (size : Nat)
  | isAborted
  | readAt (offset size : Nat)
  | isComplete
  | size

abbrev StreamRequest.Answer : StreamRequest → Type
  | .waitForPrefix _ | .size => Nat
  | .isAborted | .isComplete => Bool
  | .readAt _ _ => Bytes

abbrev Consumer (α : Type) := Program StreamRequest StreamRequest.Answer α

/-- How the client ends its half of the call, if it does. -/
inductive Ending
  | halfClose
  | gone
  | silent
  deriving DecidableEq

structure Upload where
  stream : ByteStream
  coming : List Bytes
  ending : Ending

namespace Upload

def start (chunks : List Bytes) (ending : Ending) : Upload := ⟨⟨[], false, false⟩, chunks, ending⟩

/-- The next step of the upload loop. -/
def advance (u : Upload) (_ : Unit) : Upload :=
  match u.coming, u.ending with
  | chunk :: coming, _ => { u with stream := u.stream.append chunk, coming := coming }
  | [], .halfClose => { u with stream := { u.stream with complete := true } }
  | [], .gone => { u with stream := { u.stream with aborted := true } }
  | [], .silent => u

def answer (u : Upload) : (request : StreamRequest) → Option request.Answer
  | .waitForPrefix size => u.stream.waitForPrefix size
  | .isAborted => some u.stream.aborted
  | .readAt offset size => u.stream.readAt offset size
  | .isComplete => some u.stream.complete
  | .size => some u.stream.bytes.length

end Upload

def uploadMachine : Machine Upload StreamRequest StreamRequest.Answer Unit where
  serve u _ _ request := (u.answer request).map fun answer => (answer, u)

abbrev MaResult := Int32

def maSuccess : MaResult := 0

def maError : MaResult := -1

def maAtEnd : MaResult := -17

inductive SeekOrigin
  | start
  | current
  | fromEnd

/-- What miniaudio asks of its callbacks. -/
inductive Callback
  | read (bytesToRead : Nat)
  | seek (offset : Int64) (origin : SeekOrigin)

abbrev Callback.Reply : Callback → Type
  | .read _ => MaResult × Bytes
  | .seek _ _ => MaResult

/-- The loop of `stream_read`. Every round but the last adds a byte, so that as many rounds as
bytes wanted are enough. -/
def readLoop : (rounds : Nat) → (position : UInt64) → (wanted : Nat) → (data : Bytes) →
    Consumer (Bytes × UInt64)
  | 0, position, _, data => .done (data, position)
  | rounds + 1, position, wanted, data =>
    if data.length < wanted then
      .perform (.readAt position.toNat (wanted - data.length)) fun got =>
        if got.isEmpty then .done (data, position)
        else readLoop rounds (position + UInt64.ofNat got.length) wanted (data ++ got)
    else .done (data, position)

def streamRead (bytesToRead : Nat) (position : UInt64) : Consumer ((MaResult × Bytes) × UInt64) :=
  (readLoop bytesToRead position bytesToRead []).bind fun read =>
    .done ((if read.1.isEmpty then maAtEnd else maSuccess, read.1), read.2)

/-- A seek from the end fails while the upload is in flight. -/
def streamSeek (offset : Int64) (origin : SeekOrigin) (position : UInt64) :
    Consumer (MaResult × UInt64) :=
  match origin with
  | .start => .done (maSuccess, offset.toUInt64)
  | .current => .done (maSuccess, position + offset.toUInt64)
  | .fromEnd =>
    .perform .isComplete fun complete =>
      if complete then
        .perform .size fun size => .done (maSuccess, UInt64.ofNat size + offset.toUInt64)
      else .done (maError, position)

def callback : (request : Callback) → (position : UInt64) → Consumer (request.Reply × UInt64)
  | .read bytesToRead, position => streamRead bytesToRead position
  | .seek offset origin, position => streamSeek offset origin position

/-- The output format that `ma_decoder_init` is asked for. -/
inductive DecoderConfig
  | native
  | f32 (channels sampleRate : UInt32)

/-- The calls into miniaudio. Each comes back with the decoder as it left it. -/
structure Miniaudio (δ : Type) where
  init : DecoderConfig → Program Callback Callback.Reply (MaResult × δ)
  dataFormat : δ → UInt32 × UInt32
  lengthInPcmFrames : δ → Program Callback Callback.Reply ((MaResult × UInt64) × δ)
  readPcmFrames : δ → Nat → Program Callback Callback.Reply ((MaResult × List Sample) × δ)
  resultDescription : MaResult → String

structure AudioDecoder (δ : Type) where
  decoder : δ
  cursor : UInt64
  info : DecoderInfo

namespace AudioDecoder

variable {δ : Type} (ma : Miniaudio δ)

/-- Whether the length may be asked for: the header declares it, or all bytes are here. -/
def lengthKnown (headerDeclaresDuration : Bool) : Consumer Bool :=
  if headerDeclaresDuration then .done true else .perform .isComplete fun complete => .done complete

def measure (d : AudioDecoder δ) (known : Bool) : Consumer (AudioDecoder δ) :=
  if known then
    ((ma.lengthInPcmFrames d.decoder).handle callback d.cursor).bind fun measured =>
      let d := { d with decoder := measured.1.2, cursor := measured.2 }
      if measured.1.1.1 = maSuccess then
        .done { d with info := { d.info with
          durationMs := measured.1.1.2 * 1000 / UInt64.ofNat modelSampleRate } }
      else .done d
  else .done d

def cannotDecode (result : MaResult) : Thrown :=
  .decodeError ("cannot decode media: " ++ ma.resultDescription result)

/-- The constructor: it learns the source format, and opens again in the format of the model. -/
def create (headerDeclaresDuration : Bool) : Consumer (Except Thrown (AudioDecoder δ)) :=
  ((ma.init .native).handle callback 0).bind fun probe =>
    if probe.1.1 ≠ maSuccess then .done (.error (cannotDecode ma probe.1.1))
    else
      let format := ma.dataFormat probe.1.2
      ((ma.init (.f32 1 (UInt32.ofNat modelSampleRate))).handle callback 0).bind fun opened =>
        if opened.1.1 ≠ maSuccess then .done (.error (cannotDecode ma opened.1.1))
        else
          (lengthKnown headerDeclaresDuration).bind fun known =>
            (measure ma ⟨opened.1.2, opened.2, ⟨0, format.2, format.1⟩⟩ known).bind fun d =>
              .done (.ok d)

def read (maxSamples : Nat) (d : AudioDecoder δ) :
    Consumer (Except Thrown (List Sample) × AudioDecoder δ) :=
  ((ma.readPcmFrames d.decoder maxSamples).handle callback d.cursor).bind fun decoded =>
    let d := { d with decoder := decoded.1.2, cursor := decoded.2 }
    if decoded.1.1.1 ≠ maSuccess ∧ decoded.1.1.1 ≠ maAtEnd then
      .done (.error (.decodeError
        ("decode failed mid-stream: " ++ ma.resultDescription decoded.1.1.1)), d)
    else .done (.ok (decoded.1.1.2.map scrubSample), d)

end AudioDecoder

/-- Who reads the decoder. What it does next is decided by what it has read. -/
abbrev PcmReader (α : Type) := Program Nat (fun _ => Except Thrown (List Sample)) α

inductive Listening (α : Type)
  | aborted
  | elsewhere (family : MediaFamily)
  | failed (thrown : Thrown)
  | heard (family : MediaFamily) (info : DecoderInfo) (a : α)

variable {δ α : Type} (ma : Miniaudio δ) (reader : MediaFamily → DecoderInfo → PcmReader α)

/-- The decoder of a container it knows, with its reader. -/
def listenTo (family : MediaFamily) : Consumer (Listening α) :=
  if family.decodesInProcess then
    (AudioDecoder.create ma (decide (family = .wav))).bind fun created =>
      match created with
      | .error thrown => .done (.failed thrown)
      | .ok d =>
        ((reader family d.info).handle (AudioDecoder.read ma) d).bind fun read =>
          .done (.heard family d.info read.1)
  else .done (.elsewhere family)

/-- The live path of `process_stream`, from the first bytes to the last samples. -/
def liveDecode : Consumer (Listening α) :=
  .perform (.waitForPrefix 16) fun size =>
    .perform .isAborted fun aborted =>
      if aborted then .done .aborted
      else
        .perform (.readAt 0 size) fun start =>
          listenTo ma reader (sniff (start ++ List.replicate (size - start.length) 0))

end GrpcAsr.Asr
