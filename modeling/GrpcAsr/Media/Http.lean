import GrpcAsr.Media.Messages

/-!
# HTTP input

`HttpInput` takes the body of a transfer in callbacks of libcurl and hands it out in reads. The
queue between them has a budget: a block that does not fit is refused, and a read that hands out
bytes pauses the transfer until the queue is empty. libcurl is the environment of a read: what it
calls back, what its calls return and which transfers it reports done come with every turn of
the loop. It delivers the entity in order, offers again what was refused once it may, and ends
with `CURLE_OK` when there is nothing left.
-/

namespace GrpcAsr.Media

set_option autoImplicit false

/-- The result of a transfer; zero is `CURLE_OK`. -/
abbrev CurlCode := Nat

structure HttpInput where
  pending : List Bytes
  bytes : Nat
  offset : Nat
  headerBytes : Nat
  paused : Bool
  finished : Bool
  addressRejected : Bool
  result : CurlCode
  error : Option Failure

/-- What the write callback tells libcurl: the bytes it took, or `CURL_WRITEFUNC_PAUSE`. -/
inductive WriteResult
  | wrote (count : Nat)
  | pause

def asciiLower (c : UInt8) : UInt8 := if 65 ≤ c && c ≤ 90 then c + 32 else c

def asciiSpace (c : UInt8) : Bool := c == 32 || (9 ≤ c && c ≤ 13)

namespace HttpInput

def budget : Nat := 64 * 1024

def body (input : HttpInput) (status : Int) (data : Bytes) : WriteResult × HttpInput :=
  if data.isEmpty then (.wrote 0, input)
  else if status < 200 || status ≥ 300 then
    (.wrote 0,
      { input with
        error := some ⟨.failedPrecondition, "HTTP source did not return a successful response"⟩ })
  else if data.length > budget then
    (.wrote 0, { input with error := some ⟨.resourceExhausted, "HTTP callback exceeds buffer limit"⟩ })
  else if data.length > sizeSub budget input.bytes then (.pause, { input with paused := true })
  else
    (.wrote data.length,
      { input with pending := input.pending ++ [data], bytes := input.bytes + data.length })

def header (input : HttpInput) (line : Bytes) : HttpInput :=
  if line.length > sizeSub budget input.headerBytes then
    { input with error := some ⟨.resourceExhausted, "HTTP headers exceed limit"⟩ }
  else
    let input := { input with headerBytes := input.headerBytes + line.length }
    let lower := line.map asciiLower
    let encoding := (lower.drop 17).filter fun c => !asciiSpace c
    if (ascii "content-encoding:").isPrefixOf lower && !encoding.isEmpty &&
        encoding != ascii "identity" then
      { input with
        error := some ⟨.unimplemented, "encoded HTTP response entities are not supported"⟩ }
    else input

def check (input : HttpInput) (cancelled : Bool) : Option Failure :=
  match input.error with
  | some error => some error
  | none => if cancelled then some ⟨.cancelled, "HTTP source cancelled"⟩ else none

/-- Bytes taken off the front block, which goes once all of it is taken. -/
def consume (input : HttpInput) (front : Bytes) (blocks : List Bytes) (count : Nat) : HttpInput :=
  { input with
    bytes := sizeSub input.bytes count
    pending := if input.offset + count = front.length then blocks else front :: blocks
    offset := if input.offset + count = front.length then 0 else input.offset + count }

end HttpInput

/-- The transfer in libcurl: what of the entity no callback has taken, and whether receiving is paused. -/
structure Transfer where
  rest : Bytes
  paused : Bool
  status : Int

structure HttpWorld where
  input : HttpInput
  transfer : Transfer

/-- A callback of libcurl; the body offers the next bytes of the entity. -/
inductive Callback
  | status (code : Int)
  | header (line : Bytes)
  | socket (permitted : Bool)
  | body (count : Nat)

/-- What the environment does in one turn of the loop of a read. -/
structure ReadTurn where
  cancelled : Bool
  pauseOk : Bool
  resumeOk : Bool
  resumed : List Callback
  cancelledResumed : Bool
  performOk : Bool
  performed : List Callback
  cancelledPerformed : Bool
  messages : List CurlCode
  pollOk : Bool

inductive ReadStep
  | returned (data : Bytes) (w : HttpWorld)
  | failed (failure : Failure) (w : HttpWorld)
  | waited (w : HttpWorld) (ok : Bool)
  | again (w : HttpWorld)

namespace HttpWorld

def start (entity : Bytes) : HttpWorld where
  input := ⟨[], 0, 0, 0, false, false, false, 0, none⟩
  transfer := ⟨entity, false, 0⟩

def callback (w : HttpWorld) : Callback → HttpWorld
  | .status code => { w with transfer := { w.transfer with status := code } }
  | .header line => { w with input := w.input.header line }
  | .socket permitted =>
    if permitted then w else { w with input := { w.input with addressRejected := true } }
  | .body count =>
    if w.transfer.paused then w
    else
      match w.input.body w.transfer.status (w.transfer.rest.take count) with
      | (.pause, input) => ⟨input, { w.transfer with paused := true }⟩
      | (.wrote taken, input) => ⟨input, { w.transfer with rest := w.transfer.rest.drop taken }⟩

def callbacks (w : HttpWorld) (calls : List Callback) : HttpWorld := calls.foldl callback w

/-- The messages of the multi handle; a transfer that ends well has nothing left. -/
def complete (w : HttpWorld) (messages : List CurlCode) : HttpWorld :=
  messages.foldl (fun w code =>
    if code = 0 ∧ w.transfer.rest ≠ [] then w
    else { w with input := { w.input with finished := true, result := code } }) w

/-- Handing out bytes of the front block; the transfer is paused while the consumer works. -/
def serve (capacity : Nat) (turn : ReadTurn) (w : HttpWorld) (front : Bytes) (blocks : List Bytes) :
    ReadStep :=
  let count := min capacity (sizeSub front.length w.input.offset)
  let data := (front.drop w.input.offset).take count
  let input := w.input.consume front blocks count
  if !input.finished && !input.paused then
    if turn.pauseOk then
      .returned data ⟨{ input with paused := true }, { w.transfer with paused := true }⟩
    else .failed ⟨.unavailable, "HTTP backpressure pause failed"⟩ { w with input := input }
  else .returned data { w with input := input }

def finish (w : HttpWorld) : ReadStep :=
  if w.input.result ≠ 0 then
    if w.input.addressRejected then
      .failed ⟨.permissionDenied, "HTTP destination address is not allowed"⟩ w
    else .failed ⟨.unavailable, "HTTP source transfer failed"⟩ w
  else if w.transfer.status < 200 || w.transfer.status ≥ 300 then
    .failed ⟨.failedPrecondition, "HTTP source did not return a successful response"⟩ w
  else .returned [] w

def perform (turn : ReadTurn) (w : HttpWorld) : ReadStep :=
  let w := w.callbacks turn.performed
  if !turn.performOk then .failed ⟨.unavailable, "HTTP polling failed"⟩ w
  else
    match w.input.check turn.cancelledPerformed with
    | some failure => .failed failure w
    | none =>
      let w := w.complete turn.messages
      if !w.input.pending.isEmpty || w.input.finished then .again w else .waited w turn.pollOk

/-- One turn of the loop of a read. -/
def readTurn (capacity : Nat) (turn : ReadTurn) (w : HttpWorld) : ReadStep :=
  match w.input.check turn.cancelled with
  | some failure => .failed failure w
  | none =>
    match w.input.pending with
    | front :: blocks => serve capacity turn w front blocks
    | [] =>
      if w.input.finished then finish w
      else if w.input.paused then
        let resumed := { w.input with paused := false }
        if turn.resumeOk then
          let w := callbacks ⟨resumed, { w.transfer with paused := false }⟩ turn.resumed
          match w.input.check turn.cancelledResumed with
          | some failure => .failed failure w
          | none => perform turn w
        else .failed ⟨.unavailable, "HTTP resume failed"⟩ { w with input := resumed }
      else perform turn w

end HttpWorld

/-- What a run shows: what reads return or throw, and the world in which they wait. -/
inductive HttpEvent
  | returned (data : Bytes) (w : HttpWorld)
  | failed (failure : Failure)
  | invalidArgument
  | waited (w : HttpWorld)

inductive HttpAction
  | callback (call : Callback)
  | read (capacity : Nat) (turns : List ReadTurn)

namespace HttpWorld

def readLoop (capacity : Nat) : List ReadTurn → HttpWorld → List HttpEvent × HttpWorld
  | [], w => ([], w)
  | turn :: turns, w =>
    match readTurn capacity turn w with
    | .returned data next => ([.returned data next], next)
    | .failed failure next => ([.failed failure], next)
    | .again next => readLoop capacity turns next
    | .waited next true =>
      (.waited next :: (readLoop capacity turns next).1, (readLoop capacity turns next).2)
    | .waited next false => ([.waited next, .failed ⟨.unavailable, "HTTP wait failed"⟩], next)

def act (w : HttpWorld) : HttpAction → List HttpEvent × HttpWorld
  | .callback call => ([], w.callback call)
  | .read capacity turns =>
    if capacity = 0 then ([.invalidArgument], w) else readLoop capacity turns w

def run (w : HttpWorld) : List HttpAction → List HttpEvent × HttpWorld
  | [] => ([], w)
  | action :: actions => ((w.act action).1 ++ (run (w.act action).2 actions).1,
      (run (w.act action).2 actions).2)

end HttpWorld

end GrpcAsr.Media
