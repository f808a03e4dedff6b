import GrpcAsr.Media.Registry

/-!
# What one step of the registry can do

`Change` lists every way an operation can end. An event is published to a stream that
was just opened, or to one that is registered and not closed; `Continuation` says how
the latter is prepared. Nothing else touches the streams, except that a refused `open`
may have reclaimed one.
-/

namespace GrpcAsr.Media

set_option autoImplicit false

open Emitting

/-- How an operation prepares an open stream and the event it publishes to it. -/
inductive Continuation (retention : Nat) (id : Bytes) (now : Timestamp) (old : Stream) :
    Operation → Stream → EventDraft → Prop
  | source (chunk : SourceChunk) :
      Continuation retention id now old (.source id chunk now) old (.of (.source chunk))
  | closed (closed : StreamClosed) (steadyNow : Int) :
      Continuation retention id now old (.close id closed now steadyNow)
        { old with
          closed := true
          closedAt := steadyNow
          snapshot := { old.snapshot with closed := some closed } }
        (.of (.closed closed))
  | derived {draft draft' : EventDraft} {libraryVersion : Bytes} {stream : Stream}
      (hPayload : draft.payload.any Payload.isDerived = true)
      (hDerive : old.derive retention draft libraryVersion = .ok (draft', stream)) :
      Continuation retention id now old (.derived id draft libraryVersion now) stream draft'

/-- The ways a step of the system can end. -/
inductive Change (native : Native) (system : System) :
    Operation → Outcome System Emission Failure → Prop
  | opened {request : OpenStream} {speechEnabled httpEnabled : Bool}
      {idEntropy incarnationEntropy : Entropy} {now : Timestamp} (id : Bytes)
      (hId : id = if request.streamId.isEmpty then uuid idEntropy else request.streamId)
      (hNew : system.registry.streams[id]? = none) (hValid : validUuid id = true)
      (hRoom : system.registry.reclaim.streams.size < system.registry.limits.maxStreams) :
      Change native system
        (.openStream request speechEnabled httpEnabled idEntropy incarnationEntropy now)
        ({ system with registry := system.registry.reclaim }.publish id
          (system.registry.newStream native request (uuid incarnationEntropy)) now
          (.of (.opened (request.opened system.registry.limits))))
  | unopened {request : OpenStream} {speechEnabled httpEnabled : Bool}
      {idEntropy incarnationEntropy : Entropy} {now : Timestamp} (error : Failure)
      (hFull : ¬system.registry.reclaim.streams.size < system.registry.limits.maxStreams) :
      Change native system
        (.openStream request speechEnabled httpEnabled idEntropy incarnationEntropy now)
        ({ system with registry := system.registry.reclaim }.refuse error)
  | refused (operation : Operation) (error : Failure) :
      Change native system operation (system.refuse error)
  | continued {operation : Operation} (id : Bytes) {old stream : Stream} {draft : EventDraft}
      (now : Timestamp) (hOld : system.registry.streams[id]? = some old)
      (hOpen : old.closed = false)
      (hNext : Continuation system.registry.limits.retentionBytes id now old operation stream draft) :
      Change native system operation (system.publish id stream now draft)
  | unsubscribed {request : SubscribeRequest} {entropy : Entropy} (error : Failure) :
      Change native system (.subscribe request entropy)
        ({ system with
          registry := { system.registry with subscribers := system.liveSubscribers } }.refuse error)
  | subscribed {request : SubscribeRequest} {entropy : Entropy} (sub : Subscription)
      (hSub : System.newMailbox { system.registry with subscribers := system.liveSubscribers }
        request entropy = .ok sub) :
      Change native system (.subscribe request entropy)
        ⟨⟨{ system.registry with
              subscribers := system.liveSubscribers ++ [system.mailboxes.length] },
            system.mailboxes ++ [⟨sub, true⟩]⟩, [], none⟩
  | received (handle : Nat) (sub : Subscription)
      (hBox : system.mailboxes[handle]? = some ⟨sub, true⟩) :
      Change native system (.next handle)
        ⟨{ system with mailboxes := system.mailboxes.set handle ⟨sub.next.1, true⟩ },
          sub.next.2.toList.map (.delivered handle), none⟩
  | nothing (handle : Nat) : Change native system (.next handle) ⟨system, [], none⟩
  | cancelled (handle : Nat) :
      Change native system (.cancel handle)
        (system.update handle fun m => { m with subscription := m.subscription.cancel })
  | released (handle : Nat) :
      Change native system (.release handle) (system.update handle fun m => { m with held := false })

variable {native : Native} {system : System}

theorem openStreamAt_eq_ok {id : Bytes} {message : String} {stream : Stream}
    (h : system.openStreamAt id message = .ok stream) :
    system.registry.streams[id]? = some stream ∧ stream.closed = false := by
  unfold System.openStreamAt at h
  split at h
  · cases h
  · rename_i found hFound
    split at h
    · cases h
    · rename_i hOpen
      cases h
      exact ⟨hFound, by simpa using hOpen⟩

theorem openStreamAt_open {id : Bytes} {stream : Stream} (message : String)
    (hStream : system.registry.streams[id]? = some stream) (hOpen : stream.closed = false) :
    system.openStreamAt id message = .ok stream := by
  rw [System.openStreamAt, hStream]
  simp [hOpen]

@[simp] theorem reclaim_limits (registry : Registry) : registry.reclaim.limits = registry.limits := by
  unfold Registry.reclaim
  split
  · split <;> rfl
  · rfl

@[simp] theorem reclaim_epoch (registry : Registry) : registry.reclaim.epoch = registry.epoch := by
  unfold Registry.reclaim
  split
  · split <;> rfl
  · rfl

@[simp] theorem reclaim_producer (registry : Registry) :
    registry.reclaim.producer = registry.producer := by
  unfold Registry.reclaim
  split
  · split <;> rfl
  · rfl

@[simp] theorem reclaim_subscribers (registry : Registry) :
    registry.reclaim.subscribers = registry.subscribers := by
  unfold Registry.reclaim
  split
  · split <;> rfl
  · rfl

theorem newStream_reclaim (registry : Registry) (request : OpenStream) (incarnation : Bytes) :
    registry.reclaim.newStream native request incarnation =
      registry.newStream native request incarnation := by
  simp [Registry.newStream]

theorem step_opening {request : OpenStream} {speechEnabled httpEnabled : Bool}
    {idEntropy incarnationEntropy : Entropy} {now : Timestamp} :
    Change native system
      (.openStream request speechEnabled httpEnabled idEntropy incarnationEntropy now)
      (system.openStream native request speechEnabled httpEnabled idEntropy incarnationEntropy
        now) := by
  unfold System.openStream
  simp only
  generalize hId : (if request.streamId.isEmpty then uuid idEntropy else request.streamId) = id
  split
  · exact .refused _ _
  · rename_i hChecked
    obtain ⟨-, -, hChecked⟩ := bind_eq_ok hChecked
    obtain ⟨_, hValid, hChecked⟩ := bind_eq_ok hChecked
    have hNew : system.registry.streams[id]? = none := by
      have hAbsent := require_eq_ok.mp hChecked
      refine Std.TreeMap.getElem?_eq_none fun hMem => ?_
      rw [Std.TreeMap.contains_iff_mem.mpr hMem] at hAbsent
      cases hAbsent
    rw [newStream_reclaim, reclaim_limits]
    split
    · rename_i hRoom
      exact .opened id hId.symm hNew (require_eq_ok.mp hValid) hRoom
    · rename_i hFull
      exact .unopened _ hFull

theorem step_deriving {id : Bytes} {draft : EventDraft} {libraryVersion : Bytes}
    {now : Timestamp} :
    Change native system (.derived id draft libraryVersion now)
      (system.derived id draft libraryVersion now) := by
  unfold System.derived
  simp only
  split
  · exact .refused _ _
  · rename_i draft' stream hChecked
    obtain ⟨_, hPayload, hChecked⟩ := bind_eq_ok hChecked
    obtain ⟨-, -, hChecked⟩ := bind_eq_ok hChecked
    obtain ⟨old, hOld, hChecked⟩ := bind_eq_ok hChecked
    obtain ⟨hFound, hOpen⟩ := openStreamAt_eq_ok hOld
    exact .continued id now hFound hOpen (.derived (require_eq_ok.mp hPayload) hChecked)

theorem step_subscribing {request : SubscribeRequest} {entropy : Entropy} :
    Change native system (.subscribe request entropy) (system.subscribe request entropy) := by
  unfold System.subscribe
  split
  · exact .refused _ _
  · simp only
    split
    · exact .unsubscribed _
    · exact .subscribed _ ‹_›

theorem step_change (native : Native) (system : System) (operation : Operation) :
    Change native system operation (system.step native operation) := by
  cases operation with
  | openStream => exact step_opening
  | source id chunk now =>
    simp only [System.step, System.source]
    split
    · exact .refused _ _
    · obtain ⟨hFound, hOpen⟩ := openStreamAt_eq_ok ‹_›
      exact .continued id now hFound hOpen (.source chunk)
  | derived => exact step_deriving
  | close id closed now steadyNow =>
    simp only [System.step, System.close]
    split
    · exact .refused _ _
    · obtain ⟨hFound, hOpen⟩ := openStreamAt_eq_ok ‹_›
      exact .continued id now hFound hOpen (.closed closed steadyNow)
  | subscribe => exact step_subscribing
  | next handle =>
    simp only [System.step, System.receive]
    split
    · exact .received handle _ ‹_›
    · exact .nothing handle
  | cancel handle => exact .cancelled handle
  | release handle => exact .released handle

end GrpcAsr.Media
