import GrpcAsr.Media.Wire

/-!
# Bounded listener mailboxes

A subscription selects events by stream and payload kind and queues them up to a byte
limit. Overflow and cancellation stop it for good and empty its queue.
-/

namespace GrpcAsr.Media

set_option autoImplicit false

/-- Message size with the fixed allowance for queue nodes and message objects. -/
def SubscribeResponse.charge (response : SubscribeResponse) : Nat := response.byteSize + 512

def StreamEvent.charge (event : StreamEvent) : Nat := event.byteSize + 512

/-- The value of `PayloadKind` a subscriber selects the payload by; opening and closing
events have none. -/
def Payload.kind : Payload → Option Int
  | .source _ => some 1
  | .audio _ => some 2
  | .transcript _ => some 3
  | .mediaInfo _ => some 4
  | .packet _ => some 5
  | .hypothesis _ => some 6
  | .httpInfo _ => some 7
  | .opened _ => none
  | .closed _ => none

structure Subscription where
  ids : List Bytes
  kinds : List Int
  limit : Nat
  pending : List SubscribeResponse
  bytes : Nat
  stopped : Bool
  status : Status
  deriving DecidableEq

namespace Subscription

def create (request : SubscribeRequest) (limit : Nat) : Subscription :=
  ⟨request.streamIds, request.payloadKinds, limit, [], 0, false, Status.OK⟩

def acceptsId (s : Subscription) (id : Bytes) : Bool := s.ids.isEmpty || s.ids.contains id

def acceptsPayload (s : Subscription) : Option Payload → Bool
  | some payload =>
    match payload.kind with
    | some kind => s.kinds.isEmpty || s.kinds.contains kind
    | none => true
  | none => s.kinds.isEmpty

def accepts (s : Subscription) (event : StreamEvent) : Bool :=
  s.acceptsId event.cursor.streamId && s.acceptsPayload event.payload

def push (s : Subscription) (response : SubscribeResponse) : Subscription × Bool :=
  if s.stopped then (s, false)
  else if s.limit < response.charge ∨ s.limit - response.charge < s.bytes then
    ({ s with
        stopped := true
        status := ⟨.resourceExhausted,
          "subscriber queue exhausted; resume using last delivered cursor"⟩
        pending := []
        bytes := 0 }, false)
  else ({ s with bytes := s.bytes + response.charge, pending := s.pending ++ [response] }, true)

/-- The wait for a message ends with one or runs out; only the queue at its end matters. -/
def next (s : Subscription) : Subscription × Option SubscribeResponse :=
  match s.pending with
  | [] => (s, none)
  | response :: rest =>
    ({ s with bytes := s.bytes - response.charge, pending := rest }, some response)

def cancel (s : Subscription) : Subscription := { s with stopped := true, pending := [], bytes := 0 }

/-- A push that goes through queues its message and changes nothing else but the charge. -/
theorem push_ok {s : Subscription} {response : SubscribeResponse}
    (h : (s.push response).2 = true) :
    (s.push response).1 =
      { s with bytes := s.bytes + response.charge, pending := s.pending ++ [response] } := by
  rw [push] at h ⊢
  split at h
  · cases h
  · split at h
    · cases h
    · rename_i hOpen hRoom
      rw [if_neg hOpen, if_neg hRoom]

/-- A push that fails leaves a stopped subscription. -/
theorem push_failed {s : Subscription} {response : SubscribeResponse}
    (h : (s.push response).2 = false) : (s.push response).1.stopped = true := by
  rw [push] at h ⊢
  split at h
  · rename_i hStopped
    rw [if_pos hStopped]
    exact hStopped
  · split at h
    · rename_i hOpen hFull
      rw [if_neg hOpen, if_pos hFull]
    · cases h

end Subscription

end GrpcAsr.Media
