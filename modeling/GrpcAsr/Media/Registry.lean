import GrpcAsr.Library.Emitting
import GrpcAsr.Media.Uuid
import GrpcAsr.Media.Subscription
import GrpcAsr.Media.TranscriptRevision

/-!
# The stream registry

Every registry operation runs under one lock and is one step here. Streams are kept in
an ordered map, listeners as handles into the mailboxes their calls hold. Random bytes
and clock readings are arguments of the operations that draw them; the digest and the
generated serializer are parameters.
-/

namespace GrpcAsr.Media

set_option autoImplicit false

open Emitting

structure Limits where
  maxChunkBytes : Nat
  retentionBytes : Nat
  subscriberBytes : Nat
  maxStreams : Nat
  maxSubscribers : Nat
  deriving DecidableEq

/-- OpenSSL's SHA-256 and the generated serializer of `OpenStream`. -/
structure Native where
  sha256 : Bytes → Bytes
  serialize : OpenStream → Bytes

/-- An event as a caller builds it, before publication stamps it. -/
structure EventDraft where
  cursor : Option Cursor
  producer : Option Producer
  emittedAt : Option Timestamp
  payload : Option Payload
  deriving DecidableEq, Inhabited

def EventDraft.of (payload : Payload) : EventDraft := ⟨none, none, none, some payload⟩

def EventDraft.byteSize (e : EventDraft) : Nat :=
  Wire.optional (fun c => Wire.delimited 1 (Cursor.byteSize c)) e.cursor +
    Wire.optional (fun p => Wire.delimited 2 (Producer.byteSize p)) e.producer +
    Wire.optional (fun t => Wire.delimited 3 (Timestamp.byteSize t)) e.emittedAt +
    Wire.optional Payload.byteSize e.payload

structure Stream where
  producer : Producer
  snapshot : StreamSnapshot
  history : List StreamEvent
  historyBytes : Nat
  sequence : Nat
  closed : Bool
  incarnation : Bytes
  closedAt : Int
  deriving Inhabited

abbrev StreamMap := Std.TreeMap Bytes Stream

structure Registry where
  limits : Limits
  epoch : Bytes
  producer : Producer
  streams : StreamMap
  subscribers : List Nat

namespace Stream

/-- Drops retained events from the front until one of `size` fits. -/
def evict (retention size : Nat) : List StreamEvent → Nat → List StreamEvent × Nat
  | [], bytes => ([], bytes)
  | event :: history, bytes =>
    if retention < size ∨ retention - size < bytes then
      evict retention size history (bytes - event.charge)
    else (event :: history, bytes)

def stamp (stream : Stream) (epoch id : Bytes) (now : Timestamp) (draft : EventDraft) :
    StreamEvent where
  cursor := ⟨epoch, id, stream.sequence + 1, stream.incarnation⟩
  producer := some (draft.producer.getD stream.producer)
  emittedAt := now
  payload := draft.payload

def retain (retention : Nat) (stream : Stream) (event : StreamEvent) : List StreamEvent × Nat :=
  let kept := evict retention event.charge stream.history stream.historyBytes
  if event.charge ≤ retention then (kept.1 ++ [event], kept.2 + event.charge) else kept

def firstRetained (history : List StreamEvent) (sequence : Nat) : Nat :=
  match history with
  | [] => sequence + 1
  | event :: _ => event.cursor.eventSequence

/-- The stream's part of publication. -/
def record (retention : Nat) (stream : Stream) (event : StreamEvent) : Stream :=
  let kept := stream.retain retention event
  { stream with
    sequence := event.cursor.eventSequence
    history := kept.1
    historyBytes := kept.2
    snapshot :=
      { stream.snapshot with
        through := event.cursor
        firstRetainedSequence := firstRetained kept.1 event.cursor.eventSequence } }

end Stream

/-- A listener's queue and whether its call still holds it. -/
structure Mailbox where
  subscription : Subscription
  held : Bool
  deriving DecidableEq

structure System where
  registry : Registry
  mailboxes : List Mailbox

inductive Emission
  | published (event : StreamEvent)
  | delivered (handle : Nat) (response : SubscribeResponse)
  deriving DecidableEq

namespace Mailbox

def offer (event : StreamEvent) (mailbox : Mailbox) : Mailbox :=
  if mailbox.subscription.accepts event then
    { mailbox with subscription := (mailbox.subscription.push (.event event)).1 }
  else mailbox

end Mailbox

namespace System

def held (system : System) (handle : Nat) : Bool :=
  match system.mailboxes[handle]? with
  | some mailbox => mailbox.held
  | none => false

/-- The handles left when the expired ones are erased. -/
def liveSubscribers (system : System) : List Nat := system.registry.subscribers.filter system.held

def publish (system : System) (id : Bytes) (stream : Stream) (now : Timestamp)
    (draft : EventDraft) : Outcome System Emission Failure :=
  let event := stream.stamp system.registry.epoch id now draft
  let subscribers := system.liveSubscribers
  { state :=
      { registry :=
          { system.registry with
            streams := system.registry.streams.insert id
              (stream.record system.registry.limits.retentionBytes event)
            subscribers := subscribers }
        mailboxes :=
          subscribers.foldl (fun boxes handle => boxes.modify handle (Mailbox.offer event))
            system.mailboxes }
    emitted := [.published event]
    error := none }

end System

/-- The earlier closed of the stream chosen so far and the next candidate. -/
def olderClosed (oldest : Option (Bytes × Stream)) (candidate : Bytes × Stream) :
    Option (Bytes × Stream) :=
  if candidate.2.closed then
    match oldest with
    | none => some candidate
    | some chosen => if candidate.2.closedAt < chosen.2.closedAt then some candidate else oldest
  else oldest

/-- The closed stream that closed first, the lowest id among equals. -/
def reclaimable (streams : StreamMap) : Option (Bytes × Stream) :=
  streams.toList.foldl olderClosed none

def OpenStream.directSource (request : OpenStream) : DirectSource :=
  match request.source with
  | some (.direct source) => source
  | _ => ⟨[], []⟩

def OpenStream.isHttp (request : OpenStream) : Bool :=
  match request.source with
  | some (.http _) => true
  | _ => false

def OpenStream.isDirect (request : OpenStream) : Bool :=
  match request.source with
  | some (.direct _) => true
  | _ => false

def OpenStream.decodeOptions (request : OpenStream) : DecodeOptions :=
  request.decode.getD ⟨false, false, []⟩

/-- The checks `open` makes before it takes the lock. -/
def OpenStream.admissible (request : OpenStream) (speechEnabled httpEnabled : Bool) :
    Except Failure Unit := do
  require request.source.isSome .invalidArgument "source is required"
  require (request.isDirect || (httpEnabled && request.isHttp)) .unimplemented
    "HTTP input requires the Pull RPC"
  require (request.speech.isEmpty || speechEnabled) .unimplemented
    "speech worker is not connected in this build"
  require (request.decodeOptions.audioTrackIds.length ≤ 64) .resourceExhausted
    "too many selected audio tracks"
  require (request.decodeOptions.audioTrackIds.isEmpty || request.decodeOptions.emitAudio ||
    !request.speech.isEmpty) .invalidArgument "audio track selection requires emit_audio"
  require (request.directSource.name.length ≤ 1024 && request.directSource.mediaType.length ≤ 256)
    .invalidArgument "source description too long"

def OpenStream.opened (request : OpenStream) (limits : Limits) : StreamOpened where
  source :=
    if request.isHttp then { request.directSource with name := ascii "HTTP response entity" }
    else request.directSource
  maxChunkBytes := limits.maxChunkBytes % 2 ^ 32
  retentionBytes := limits.retentionBytes
  speech := request.speech
  decode := request.decode

def Registry.newStream (native : Native) (registry : Registry) (request : OpenStream)
    (incarnation : Bytes) : Stream :=
  let producer :=
    { registry.producer with
      configurationSha256 := native.sha256
        (registry.producer.configurationSha256 ++
          (native.serialize ⟨[], none, request.speech, request.decode⟩)) }
  { (default : Stream) with
    incarnation := incarnation
    producer := producer
    snapshot :=
      { (default : StreamSnapshot) with
        opened := some (request.opened registry.limits)
        producers := [producer] } }

def Registry.reclaim (registry : Registry) : Registry :=
  if registry.limits.maxStreams ≤ registry.streams.size then
    match reclaimable registry.streams with
    | some oldest => { registry with streams := registry.streams.erase oldest.1 }
    | none => registry
  else registry

namespace System

def refuse (system : System) (error : Failure) : Outcome System Emission Failure :=
  ⟨system, [], some error⟩

def openStream (native : Native) (system : System) (request : OpenStream)
    (speechEnabled httpEnabled : Bool) (idEntropy incarnationEntropy : Entropy)
    (now : Timestamp) : Outcome System Emission Failure :=
  let id := if request.streamId.isEmpty then uuid idEntropy else request.streamId
  let checked : Except Failure Unit := do
    request.admissible speechEnabled httpEnabled
    require (validUuid id) .invalidArgument "stream_id must be a non-nil lowercase UUID"
    require (!system.registry.streams.contains id) .alreadyExists
      "stream UUID is active or retained"
  match checked with
  | .error error => system.refuse error
  | .ok _ =>
    let system := { system with registry := system.registry.reclaim }
    if system.registry.streams.size < system.registry.limits.maxStreams then
      system.publish id (system.registry.newStream native request (uuid incarnationEntropy)) now
        (.of (.opened (request.opened system.registry.limits)))
    else system.refuse ⟨.resourceExhausted, "registry stream limit reached"⟩

/-- The stream an operation may still publish to. -/
def openStreamAt (system : System) (id : Bytes) (closedMessage : String) :
    Except Failure Stream :=
  match system.registry.streams[id]? with
  | none => .error ⟨.notFound, "unknown stream"⟩
  | some stream =>
    if stream.closed then .error ⟨.failedPrecondition, closedMessage⟩ else .ok stream

def source (system : System) (id : Bytes) (chunk : SourceChunk) (now : Timestamp) :
    Outcome System Emission Failure :=
  match system.openStreamAt id "stream is closed" with
  | .error error => system.refuse error
  | .ok stream => system.publish id stream now (.of (.source chunk))

def close (system : System) (id : Bytes) (closed : StreamClosed) (now : Timestamp)
    (steadyNow : Int) : Outcome System Emission Failure :=
  match system.openStreamAt id "stream is already closed" with
  | .error error => system.refuse error
  | .ok stream =>
    system.publish id
      { stream with
        closed := true
        closedAt := steadyNow
        snapshot := { stream.snapshot with closed := some closed } }
      now (.of (.closed closed))

end System

def Payload.isDerived : Payload → Bool
  | .mediaInfo _ | .audio _ | .packet _ | .hypothesis _ | .transcript _ | .httpInfo _ => true
  | .opened _ | .source _ | .closed _ => false

namespace EventDraft

def transcript? (draft : EventDraft) : Option TranscriptSegment :=
  match draft.payload with
  | some (.transcript segment) => some segment
  | _ => none

def effectiveProducer (draft : EventDraft) : Producer := draft.producer.getD default

/-- The producer of a derived event: speech results carry their own, everything else gets
the stream's with the version of the library that produced it. -/
def attributeTo (producer : Producer) (libraryVersion : Bytes) (draft : EventDraft) :
    Except Failure EventDraft :=
  match draft.payload with
  | some (.transcript _) => .ok draft
  | some (.hypothesis hypothesis) => do
    require (draft.producer.any fun p => p.modelSha256.length == 32) .invalidArgument
      "speech event requires native model provenance"
    return { draft with
      payload := some (.hypothesis { hypothesis with producer := draft.producer }) }
  | _ => .ok { draft with producer := some { producer with libraryVersion := libraryVersion } }

def identified (draft : EventDraft) (t : TranscriptSegment) : Bool :=
  validUuid t.segmentId && decide (0 < t.revision) && draft.producer.isSome &&
    t.producer.getD default == draft.effectiveProducer &&
    validUuid (t.producer.getD default).machineId &&
    (t.producer.getD default).configurationSha256.length == 32 &&
    t.contributors.head?.any fun contributor => contributor.modelSha256.length == 32

def checkTranscript (transcripts : List TranscriptSegment) (draft : EventDraft) :
    Except Failure Unit :=
  match draft.transcript? with
  | none => .ok ()
  | some t => do
    require (draft.identified t) .invalidArgument
      "transcript requires identity and processing provenance"
    require (revisionValid transcripts t) .invalidArgument "invalid transcript revision"

end EventDraft

namespace StreamSnapshot

def addProducer (snapshot : StreamSnapshot) (producer : Producer) :
    Except Failure StreamSnapshot :=
  if snapshot.producers.contains producer then .ok snapshot
  else do
    require (decide (snapshot.producers.length < 16)) .resourceExhausted "too many producers"
    return { snapshot with producers := snapshot.producers ++ [producer] }

def absorb (snapshot : StreamSnapshot) : Option Payload → StreamSnapshot
  | some (.mediaInfo info) => { snapshot with mediaInfo := some info }
  | some (.httpInfo info) => { snapshot with httpInfo := some info }
  | some (.hypothesis hypothesis) =>
    { snapshot with hypotheses := snapshot.hypotheses ++ [hypothesis] }
  | some (.transcript segment) =>
    { snapshot with transcripts := supersede snapshot.transcripts segment }
  | _ => snapshot

def capHypotheses (snapshot : StreamSnapshot) : StreamSnapshot :=
  if 16 < snapshot.hypotheses.length then
    { snapshot with
      hypotheses := snapshot.hypotheses.drop (snapshot.hypotheses.length - 16)
      resultStateTruncated := true }
  else snapshot

def capTranscripts (snapshot : StreamSnapshot) : StreamSnapshot :=
  if 64 < snapshot.transcripts.length then
    { snapshot with
      transcripts := snapshot.transcripts.drop (snapshot.transcripts.length - 64)
      resultStateTruncated := true }
  else snapshot

def dropOldest (snapshot : StreamSnapshot) : StreamSnapshot :=
  if snapshot.hypotheses.isEmpty then
    { snapshot with transcripts := snapshot.transcripts.drop 1, resultStateTruncated := true }
  else { snapshot with hypotheses := snapshot.hypotheses.drop 1, resultStateTruncated := true }

/-- The byte-budget loop; every round drops a result, so the number of results bounds it. -/
def shrink (retention : Nat) : Nat → StreamSnapshot → StreamSnapshot
  | 0, snapshot => snapshot
  | rounds + 1, snapshot =>
    if retention < snapshot.byteSize ∧
        (!snapshot.hypotheses.isEmpty || !snapshot.transcripts.isEmpty) = true then
      shrink retention rounds snapshot.dropOldest
    else snapshot

def bounded (retention : Nat) (snapshot : StreamSnapshot) : StreamSnapshot :=
  let capped := snapshot.capHypotheses.capTranscripts
  capped.shrink retention (capped.hypotheses.length + capped.transcripts.length)

end StreamSnapshot

/-- A count compared with `static_cast<int>(limit)`, which is negative from `2 ^ 31` on. -/
def atMostInt (count limit : Nat) : Bool :=
  decide (limit % 2 ^ 32 < 2 ^ 31) && decide (count ≤ limit % 2 ^ 32)

/-- The checks `subscribe` makes before it takes the lock. -/
def SubscribeRequest.admissible (request : SubscribeRequest) (limits : Limits) :
    Except Failure Unit := do
  require (atMostInt request.streamIds.length limits.maxStreams) .resourceExhausted
    "too many selected streams"
  require (atMostInt request.hydration.after.length limits.maxStreams) .resourceExhausted
    "too many replay cursors"
  require (request.streamIds.all validUuid) .invalidArgument "invalid stream UUID"
  require (request.payloadKinds.all fun kind => decide (1 ≤ kind ∧ kind ≤ 7)) .invalidArgument
    "invalid payload kind"
  require (request.hydration.after.isEmpty || request.hydration.retainedEvents) .invalidArgument
    "replay cursors require retained_events"

/-- What `derived` checks and changes of its stream before publication. -/
def Stream.derive (retention : Nat) (stream : Stream) (draft : EventDraft)
    (libraryVersion : Bytes) : Except Failure (EventDraft × Stream) := do
  let draft ← draft.attributeTo stream.producer libraryVersion
  draft.checkTranscript stream.snapshot.transcripts
  let snapshot ← stream.snapshot.addProducer draft.effectiveProducer
  return (draft, { stream with snapshot := (snapshot.absorb draft.payload).bounded retention })

namespace System

def derived (system : System) (id : Bytes) (draft : EventDraft) (libraryVersion : Bytes)
    (now : Timestamp) : Outcome System Emission Failure :=
  let checked : Except Failure (EventDraft × Stream) := do
    require (draft.payload.any Payload.isDerived) .invalidArgument "unsupported derived payload"
    require (decide (draft.byteSize ≤ 512 * 1024)) .resourceExhausted "derived event exceeds limit"
    let stream ← system.openStreamAt id "stream is closed"
    stream.derive system.registry.limits.retentionBytes draft libraryVersion
  match checked with
  | .error error => system.refuse error
  | .ok (draft, stream) => system.publish id stream now draft

abbrev ReplayMap := Std.TreeMap Bytes Nat

def replayCursor (registry : Registry) (sub : Subscription) (after : ReplayMap) (cursor : Cursor) :
    Except Failure ReplayMap := do
  require (cursor.serverEpoch == registry.epoch) .outOfRange "replay epoch unavailable"
  require (sub.acceptsId cursor.streamId) .invalidArgument "cursor outside stream selection"
  match registry.streams[cursor.streamId]? with
  | none => .error ⟨.outOfRange, "replay stream unavailable"⟩
  | some stream =>
    require (cursor.streamIncarnation == stream.incarnation) .outOfRange
      "replay stream incarnation unavailable or missing"
    require (decide (cursor.eventSequence ≤ stream.sequence)) .outOfRange "cursor ahead of stream"
    require (decide (stream.snapshot.firstRetainedSequence - 1 ≤ cursor.eventSequence)) .outOfRange
      "requested history evicted"
    require (!after.contains cursor.streamId) .invalidArgument "duplicate replay cursor"
    return after.insert cursor.streamId cursor.eventSequence

def replays (after : ReplayMap) (sub : Subscription) (id : Bytes) (event : StreamEvent) : Bool :=
  (match after[id]? with
    | none => true
    | some sequence => decide (sequence < event.cursor.eventSequence)) && sub.accepts event

def hydrateStream (hydration : Hydration) (after : ReplayMap) (sub : Subscription)
    (entry : Bytes × Stream) : List SubscribeResponse :=
  (if hydration.metadata then [.snapshot entry.2.snapshot] else []) ++
    if hydration.retainedEvents then
      (entry.2.history.filter (replays after sub entry.1)).map .event
    else []

/-- The responses that hydrate a new listener, in the order they are queued. -/
def hydrate (streams : StreamMap) (hydration : Hydration) (after : ReplayMap) (sub : Subscription)
    (snapshotId : Bytes) : List SubscribeResponse :=
  if hydration.metadata || hydration.retainedEvents then
    let selected := streams.toList.filter fun entry => sub.acceptsId entry.1
    .snapshotBegin snapshotId (selected.map fun entry => entry.2.snapshot.through) ::
      selected.flatMap (hydrateStream hydration after sub) ++ [.snapshotEnd snapshotId]
  else []

def enqueue (sub : Subscription) (response : SubscribeResponse) : Except Failure Subscription :=
  if (sub.push response).2 then .ok (sub.push response).1
  else .error ⟨.resourceExhausted,
    "hydration exceeds subscriber budget; narrow selection or resume later"⟩

/-- The mailbox of a new listener, hydrated. -/
def newMailbox (registry : Registry) (request : SubscribeRequest) (entropy : Entropy) :
    Except Failure Subscription := do
  require (decide (registry.subscribers.length < registry.limits.maxSubscribers)) .resourceExhausted
    "subscriber limit reached"
  let sub := Subscription.create request registry.limits.subscriberBytes
  let after ← request.hydration.after.foldlM (replayCursor registry sub) ∅
  (hydrate registry.streams request.hydration after sub (uuid entropy)).foldlM enqueue sub

def subscribe (system : System) (request : SubscribeRequest) (entropy : Entropy) :
    Outcome System Emission Failure :=
  match request.admissible system.registry.limits with
  | .error error => system.refuse error
  | .ok _ =>
    let registry := { system.registry with subscribers := system.liveSubscribers }
    match newMailbox registry request entropy with
    | .error error => { system with registry := registry }.refuse error
    | .ok sub =>
      { state :=
          { registry := { registry with subscribers := registry.subscribers ++ [system.mailboxes.length] }
            mailboxes := system.mailboxes ++ [⟨sub, true⟩] }
        emitted := []
        error := none }

end System

/-- Version texts compiled or linked into the server. -/
structure Build where
  appVersion : Bytes
  buildId : Bytes
  grpcVersion : Bytes

def Limits.describe (limits : Limits) : Bytes :=
  ascii ("max_chunk_bytes=" ++ toString limits.maxChunkBytes ++
    ";retention_bytes=" ++ toString limits.retentionBytes ++
    ";subscriber_bytes=" ++ toString limits.subscriberBytes ++
    ";max_streams=" ++ toString limits.maxStreams ++
    ";max_subscribers=" ++ toString limits.maxSubscribers)

def System.initial (limits : Limits) (epoch : Bytes) (producer : Producer) : System :=
  ⟨⟨limits, epoch, producer, ∅, []⟩, []⟩

/-- The registry's constructor. -/
def System.create (native : Native) (build : Build) (limits : Limits) (machineId : Bytes)
    (epochEntropy machineEntropy : Entropy) : Except Exception System :=
  if limits.maxChunkBytes = 0 ∨ limits.retentionBytes = 0 ∨ limits.subscriberBytes = 0 ∨
      limits.maxStreams = 0 ∨ limits.maxSubscribers = 0 then
    .error (.invalidArgument "registry limits must be positive")
  else if !machineId.isEmpty && !validUuid machineId then
    .error (.invalidArgument "invalid machine UUID")
  else
    .ok (.initial limits (uuid epochEntropy)
      { machineId := if machineId.isEmpty then uuid machineEntropy else machineId
        service := ascii "grpc-asr"
        appVersion := build.appVersion
        buildId := build.buildId
        libraryVersion := ascii "grpc/" ++ build.grpcVersion
        executionBackend := ascii "cpu"
        modelId := []
        modelSha256 := []
        configurationSha256 := native.sha256 limits.describe })

/-- The steps of a run: the registry's operations and what the listening calls do with
their mailboxes. Random bytes and clock readings come with the operation. -/
inductive Operation
  | openStream (request : OpenStream) (speechEnabled httpEnabled : Bool)
      (idEntropy incarnationEntropy : Entropy) (now : Timestamp)
  | source (id : Bytes) (chunk : SourceChunk) (now : Timestamp)
  | derived (id : Bytes) (draft : EventDraft) (libraryVersion : Bytes) (now : Timestamp)
  | close (id : Bytes) (closed : StreamClosed) (now : Timestamp) (steadyNow : Int)
  | subscribe (request : SubscribeRequest) (entropy : Entropy)
  | next (handle : Nat)
  | cancel (handle : Nat)
  | release (handle : Nat)

namespace System

def receive (system : System) (handle : Nat) : Outcome System Emission Failure :=
  match system.mailboxes[handle]? with
  | some ⟨sub, true⟩ =>
    { state := { system with mailboxes := system.mailboxes.set handle ⟨sub.next.1, true⟩ }
      emitted := sub.next.2.toList.map (.delivered handle)
      error := none }
  | _ => ⟨system, [], none⟩

def update (system : System) (handle : Nat) (f : Mailbox → Mailbox) :
    Outcome System Emission Failure :=
  ⟨{ system with mailboxes := system.mailboxes.modify handle f }, [], none⟩

def step (native : Native) (system : System) : Operation → Outcome System Emission Failure
  | .openStream request speechEnabled httpEnabled idEntropy incarnationEntropy now =>
    system.openStream native request speechEnabled httpEnabled idEntropy incarnationEntropy now
  | .source id chunk now => system.source id chunk now
  | .derived id draft libraryVersion now => system.derived id draft libraryVersion now
  | .close id closed now steadyNow => system.close id closed now steadyNow
  | .subscribe request entropy => system.subscribe request entropy
  | .next handle => system.receive handle
  | .cancel handle => system.update handle fun m => { m with subscription := m.subscription.cancel }
  | .release handle => system.update handle fun m => { m with held := false }

end System

end GrpcAsr.Media
