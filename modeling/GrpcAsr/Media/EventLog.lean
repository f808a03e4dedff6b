import GrpcAsr.Media.SnapshotFold

/-!
# The published log and the streams it describes

A run of the registry publishes one log. The events of a stream since its last opening
are the log of its current incarnation, and every registered stream records exactly
that log: its numbering, the retained end of its history and its snapshot.
-/

namespace GrpcAsr.Media

set_option autoImplicit false

open Emitting

/-- A registry as it is constructed, with the native functions it calls. -/
structure Server where
  native : Native
  limits : Limits
  epoch : Bytes
  producer : Producer

def publishedEvents (emissions : List Emission) : List StreamEvent :=
  emissions.filterMap fun
    | .published event => some event
    | .delivered .. => none

def deliveredTo (handle : Nat) (emissions : List Emission) : List SubscribeResponse :=
  emissions.filterMap fun
    | .published _ => none
    | .delivered target response => if target = handle then some response else none

namespace Server

variable (server : Server)

def start : System := .initial server.limits server.epoch server.producer

def state (operations : List Operation) : System :=
  after (System.step server.native) server.start operations

def emissions (operations : List Operation) : List Emission :=
  output (System.step server.native) server.start operations

def log (operations : List Operation) : List StreamEvent :=
  publishedEvents (server.emissions operations)

def received (handle : Nat) (operations : List Operation) : List SubscribeResponse :=
  deliveredTo handle (server.emissions operations)

@[simp] theorem state_nil : server.state [] = server.start := rfl

@[simp] theorem log_nil : server.log [] = [] := rfl

@[simp] theorem received_nil (handle : Nat) : server.received handle [] = [] := rfl

@[simp] theorem state_snoc (operations : List Operation) (operation : Operation) :
    server.state (operations ++ [operation]) =
      ((server.state operations).step server.native operation).state := after_snoc ..

@[simp] theorem log_snoc (operations : List Operation) (operation : Operation) :
    server.log (operations ++ [operation]) = server.log operations ++
      publishedEvents ((server.state operations).step server.native operation).emitted := by
  rw [log, emissions, output_snoc, publishedEvents, List.filterMap_append]
  rfl

@[simp] theorem received_snoc (handle : Nat) (operations : List Operation) (operation : Operation) :
    server.received handle (operations ++ [operation]) = server.received handle operations ++
      deliveredTo handle ((server.state operations).step server.native operation).emitted := by
  rw [received, emissions, output_snoc, deliveredTo, List.filterMap_append]
  rfl

end Server

/-- The events of a stream since it was last opened. -/
def incarnationLog (id : Bytes) (log : List StreamEvent) : List StreamEvent :=
  log.foldl
    (fun own event =>
      if event.cursor.streamId = id then
        if event.opened?.isSome then [event] else own ++ [event]
      else own)
    []

@[simp] theorem incarnationLog_nil (id : Bytes) : incarnationLog id [] = [] := rfl

theorem incarnationLog_snoc (id : Bytes) (log : List StreamEvent) (event : StreamEvent) :
    incarnationLog id (log ++ [event]) =
      if event.cursor.streamId = id then
        if event.opened?.isSome then [event] else incarnationLog id log ++ [event]
      else incarnationLog id log := by
  rw [incarnationLog, List.foldl_append]
  rfl

/-- The state of a stream with the given log. -/
structure Stream.Records (epoch id : Bytes) (log : List StreamEvent) (stream : Stream) : Prop where
  cursors : log.map StreamEvent.cursor =
    (List.range' 1 log.length).map fun n => ⟨epoch, id, n, stream.incarnation⟩
  sequence : stream.sequence = log.length
  retained : stream.history <:+ log
  firstRetained : stream.snapshot.firstRetainedSequence = log.length - stream.history.length + 1
  producer : stream.producer ∈ stream.snapshot.producers
  snapshot : stream.snapshot.Folds log

theorem evict_suffix (retention size : Nat) (history : List StreamEvent) (bytes : Nat) :
    (Stream.evict retention size history bytes).1 <:+ history := by
  induction history generalizing bytes with
  | nil => exact List.suffix_refl _
  | cons event history ih =>
    rw [Stream.evict]
    split
    · exact (ih _).trans (List.suffix_cons _ _)
    · exact List.suffix_refl _

theorem evict_oversized {retention size : Nat} (h : retention < size)
    (history : List StreamEvent) (bytes : Nat) :
    (Stream.evict retention size history bytes).1 = [] := by
  induction history generalizing bytes with
  | nil => rfl
  | cons event history ih =>
    rw [Stream.evict, if_pos (.inl h)]
    exact ih _

/-- The history after publication is an end of the old history with the event. -/
theorem retain_suffix (retention : Nat) (stream : Stream) (event : StreamEvent) :
    (stream.retain retention event).1 <:+ stream.history ++ [event] := by
  unfold Stream.retain
  simp only
  split
  · exact List.suffix_append_self_iff.mpr (evict_suffix _ _ _ _)
  · rw [evict_oversized (by omega)]
    exact List.nil_suffix

theorem firstRetained_eq {cursorAt : Nat → Cursor} {log history : List StreamEvent}
    (hCursors : log.map StreamEvent.cursor = (List.range' 1 log.length).map cursorAt)
    (hNumber : ∀ n, (cursorAt n).eventSequence = n) (hSuffix : history <:+ log) :
    Stream.firstRetained history log.length = log.length - history.length + 1 := by
  obtain ⟨evicted, rfl⟩ := hSuffix
  cases history with
  | nil => rfl
  | cons event history =>
    have hAt := congrArg (fun cursors => cursors[evicted.length]?) hCursors
    simp only [List.map_append, List.map_cons, List.length_append, List.length_cons] at hAt
    rw [List.getElem?_append_right (by simp), List.getElem?_map, List.getElem?_range' (by omega)] at hAt
    simp only [List.length_map, Nat.sub_self, List.getElem?_cons_zero, Option.map_some,
      Option.some.injEq] at hAt
    rw [Stream.firstRetained, hAt, hNumber]
    simp
    omega

theorem range'_map_snoc {α : Type} (f : Nat → α) (n : Nat) :
    (List.range' 1 (n + 1)).map f = (List.range' 1 n).map f ++ [f (n + 1)] := by
  rw [List.range'_concat, List.map_append, Nat.one_mul, Nat.add_comm 1 n]
  rfl

section Publication

variable {retention : Nat} {epoch id : Bytes} {log : List StreamEvent} {old stream : Stream}
  {draft : EventDraft} {now : Timestamp} {operation : Operation}

/-- Publication keeps the numbering and the retained history, whatever the payload. -/
theorem records_publish {incarnation : Bytes} {event : StreamEvent}
    (hCursors : log.map StreamEvent.cursor =
      (List.range' 1 log.length).map fun n => ⟨epoch, id, n, incarnation⟩)
    (hIncarnation : stream.incarnation = incarnation) (hRetained : stream.history <:+ log)
    (hEvent : event.cursor = ⟨epoch, id, log.length + 1, incarnation⟩)
    (hProducer : stream.producer ∈ stream.snapshot.producers)
    (hFolds : (stream.record retention event).snapshot.Folds (log ++ [event])) :
    (stream.record retention event).Records epoch id (log ++ [event]) := by
  have hSnoc : (log ++ [event]).map StreamEvent.cursor =
      (List.range' 1 (log ++ [event]).length).map fun n => ⟨epoch, id, n, incarnation⟩ := by
    rw [List.map_append, hCursors, List.length_append, List.length_singleton, range'_map_snoc,
      List.map_singleton, hEvent]
  have hNumber : event.cursor.eventSequence = (log ++ [event]).length := by
    rw [hEvent]
    simp
  have hSuffix : (stream.record retention event).history <:+ log ++ [event] :=
    (retain_suffix retention stream event).trans (List.suffix_append_self_iff.mpr hRetained)
  refine ⟨?_, hNumber, hSuffix, ?_, hProducer, hFolds⟩
  · rw [hSnoc, ← hIncarnation]
    rfl
  · have hFirst := firstRetained_eq hSnoc (fun _ => rfl) hSuffix
    rw [← hNumber] at hFirst ⊢
    exact hFirst

theorem Stream.Records.through (h : old.Records epoch id log) :
    old.snapshot.through = ⟨epoch, id, log.length, old.incarnation⟩ := by
  have hLast := h.snapshot.through
  rw [← List.getLast?_map, h.cursors] at hLast
  cases hLength : log.length with
  | zero =>
    rw [hLength] at hLast
    cases hLast
  | succ n =>
    rw [hLength, range'_map_snoc, List.getLast?_concat] at hLast
    exact (Option.some.inj hLast).symm

/-- A continuation records one more event. -/
theorem Stream.Records.continue (h : old.Records epoch id log)
    (hNext : Continuation retention id now old operation stream draft) :
    (stream.record retention (stream.stamp epoch id now draft)).Records epoch id
      (log ++ [stream.stamp epoch id now draft]) := by
  obtain ⟨hIncarnation, hProducer, hSequence, hHistory, -⟩ := hNext.frame
  have hTakes := hNext.takes epoch h.producer
  refine records_publish h.cursors hIncarnation (hHistory ▸ h.retained) ?_ ?_ ?_
  · rw [Stream.stamp, hSequence, h.sequence, hIncarnation]
  · obtain ⟨producer, -, hProducers⟩ := hTakes.producers
    rw [hProducer, hProducers]
    split
    · exact h.producer
    · exact List.mem_append_left _ h.producer
  · exact h.snapshot.take hTakes _

/-- The opening event starts the record of a new stream. -/
theorem newStream_records (native : Native) (registry : Registry) (request : OpenStream)
    (incarnation : Bytes) (stream : Stream)
    (hStream : stream = registry.newStream native request incarnation) (event : StreamEvent)
    (hEvent : event = stream.stamp epoch id now (.of (.opened (request.opened registry.limits)))) :
    (stream.record retention event).Records epoch id [event] := by
  have hIncarnation : stream.incarnation = incarnation := by rw [hStream]; rfl
  have hRetained : stream.history <:+ [] := by rw [hStream]; exact List.suffix_refl _
  refine records_publish rfl hIncarnation hRetained ?_ ?_ ?_
  · rw [hEvent, Stream.stamp, hIncarnation, hStream]
    rfl
  · rw [hStream]
    exact List.mem_singleton.mpr rfl
  · subst hEvent hStream
    exact
      { through := rfl
        opened := rfl
        closed := rfl
        mediaInfo := rfl
        httpInfo := rfl
        producers := rfl
        producersBound := (by decide : 1 ≤ 16)
        transcripts := List.suffix_refl _
        hypotheses := List.suffix_refl _
        complete := fun _ => ⟨rfl, rfl⟩ }

end Publication

theorem reclaim_streams {registry : Registry} {id : Bytes} {stream : Stream}
    (h : registry.reclaim.streams[id]? = some stream) : registry.streams[id]? = some stream := by
  unfold Registry.reclaim at h
  split at h
  · split at h
    · rw [Std.TreeMap.getElem?_erase] at h
      split at h
      · cases h
      · exact h
    · exact h
  · exact h

@[simp] theorem publishedEvents_publish (system : System) (id : Bytes) (stream : Stream)
    (now : Timestamp) (draft : EventDraft) :
    publishedEvents (system.publish id stream now draft).emitted =
      [stream.stamp system.registry.epoch id now draft] := rfl

@[simp] theorem publishedEvents_delivered (handle : Nat) (responses : List SubscribeResponse) :
    publishedEvents (responses.map (.delivered handle)) = [] := by
  rw [publishedEvents, List.filterMap_map]
  exact List.filterMap_eq_nil_iff.mpr fun _ _ => rfl

theorem publish_streams (system : System) (id : Bytes) (stream : Stream) (now : Timestamp)
    (draft : EventDraft) (other : Bytes) :
    (system.publish id stream now draft).state.registry.streams[other]? =
      if id = other then
        some (stream.record system.registry.limits.retentionBytes
          (stream.stamp system.registry.epoch id now draft))
      else system.registry.streams[other]? := by
  rw [System.publish]
  simp only [Std.TreeMap.getElem?_insert, Std.LawfulEqCmp.compare_eq_iff_eq]

variable {native : Native} {system : System} {log : List StreamEvent}

theorem stamp_opened_none {retention : Nat} {epoch id : Bytes} {old stream : Stream}
    {draft : EventDraft} {now : Timestamp} {operation : Operation}
    (h : Continuation retention id now old operation stream draft) :
    (stream.stamp epoch id now draft).opened? = none := by
  cases h with
  | source chunk => rfl
  | closed closed steadyNow => rfl
  | derived hPayload hDerive =>
    obtain ⟨snapshot, hAttributed, -⟩ := derive_eq_ok hDerive
    have hDerived := (attributeTo_payload hAttributed).trans hPayload
    rw [StreamEvent.opened?, Stream.stamp]
    split
    · rename_i opened hOpened
      simp only at hOpened
      rw [hOpened] at hDerived
      cases hDerived
    · rfl

theorem incarnationLog_continue {retention : Nat} {epoch id : Bytes} {old stream : Stream}
    {draft : EventDraft} {now : Timestamp} {operation : Operation}
    (h : Continuation retention id now old operation stream draft) :
    incarnationLog id (log ++ [stream.stamp epoch id now draft]) =
      incarnationLog id log ++ [stream.stamp epoch id now draft] := by
  rw [incarnationLog_snoc, if_pos (by rfl), stamp_opened_none h]
  rfl

/-- Where the stream registered under an id after a step comes from. -/
inductive Fate (native : Native) (system : System) (operation : Operation)
    (log log' : List StreamEvent) (id : Bytes) : Stream → Prop
  | kept {stream : Stream} (hStream : system.registry.streams[id]? = some stream)
      (hLog : incarnationLog id log' = incarnationLog id log) : Fate native system operation log log' id stream
  | opened {stream : Stream} {request : OpenStream} {incarnation : Bytes} {event : StreamEvent}
      (now : Timestamp) (hStream : stream = system.registry.newStream native request incarnation)
      (hEvent : event = stream.stamp system.registry.epoch id now
        (.of (.opened (request.opened system.registry.limits))))
      (hLog : incarnationLog id log' = [event]) :
      Fate native system operation log log' id (stream.record system.registry.limits.retentionBytes event)
  | continued {old stream : Stream} {draft : EventDraft} {event : StreamEvent} (now : Timestamp)
      (hOld : system.registry.streams[id]? = some old) (hOpen : old.closed = false)
      (hNext : Continuation system.registry.limits.retentionBytes id now old operation stream draft)
      (hEvent : event = stream.stamp system.registry.epoch id now draft)
      (hLog : incarnationLog id log' = incarnationLog id log ++ [event]) :
      Fate native system operation log log' id (stream.record system.registry.limits.retentionBytes event)

theorem publish_fate {operation : Operation} {base : System} {target id : Bytes} {prepared stream : Stream}
    {now : Timestamp} {draft : EventDraft}
    (hBase : ∀ found, base.registry.streams[id]? = some found →
      system.registry.streams[id]? = some found)
    (hFound : (base.publish target prepared now draft).state.registry.streams[id]? = some stream)
    (hSelf : target = id → Fate native system operation log
      (log ++ [prepared.stamp base.registry.epoch target now draft]) id
      (prepared.record base.registry.limits.retentionBytes
        (prepared.stamp base.registry.epoch target now draft))) :
    Fate native system operation log (log ++ [prepared.stamp base.registry.epoch target now draft]) id
      stream := by
  rw [publish_streams] at hFound
  split at hFound
  · rename_i hSame
    cases hFound
    exact hSelf hSame
  · rename_i hOther
    refine .kept (hBase stream hFound) ?_
    rw [incarnationLog_snoc, if_neg (by exact hOther)]

theorem step_fate (log : List StreamEvent) {operation : Operation} {id : Bytes} {stream : Stream}
    (hFound : (system.step native operation).state.registry.streams[id]? = some stream) :
    Fate native system operation log (log ++ publishedEvents (system.step native operation).emitted) id
      stream := by
  have hStep := step_change native system operation
  generalize system.step native operation = outcome at hStep hFound ⊢
  cases hStep with
  | opened target hId hNew =>
    rw [publishedEvents_publish]
    refine publish_fate (fun found hFound => reclaim_streams hFound) hFound ?_
    rintro rfl
    simp only [reclaim_epoch, reclaim_limits]
    refine .opened _ rfl rfl ?_
    rw [incarnationLog_snoc, if_pos (by rfl), if_pos (by rfl)]
  | unopened error => exact .kept (reclaim_streams hFound) (congrArg _ (List.append_nil log))
  | continued target now hOld hOpen hNext =>
    rw [publishedEvents_publish]
    refine publish_fate (fun found hFound => hFound) hFound ?_
    rintro rfl
    exact .continued now hOld hOpen hNext rfl (incarnationLog_continue hNext)
  | received handle sub hBox =>
    rw [publishedEvents_delivered, List.append_nil]
    exact .kept hFound rfl
  | refused | unsubscribed | subscribed | nothing | cancelled | released =>
    exact .kept hFound (congrArg _ (List.append_nil log))

/-- The registry's settings never change. -/
theorem step_settings (operation : Operation) :
    (system.step native operation).state.registry.limits = system.registry.limits ∧
      (system.step native operation).state.registry.epoch = system.registry.epoch := by
  have hStep := step_change native system operation
  generalize system.step native operation = outcome at hStep ⊢
  cases hStep with
  | opened => exact ⟨reclaim_limits _, reclaim_epoch _⟩
  | unopened => exact ⟨reclaim_limits _, reclaim_epoch _⟩
  | _ => exact ⟨rfl, rfl⟩

/-- Every registered stream records the log of its current incarnation. -/
def System.Tracks (system : System) (log : List StreamEvent) : Prop :=
  ∀ (id : Bytes) (stream : Stream), system.registry.streams[id]? = some stream →
    stream.Records system.registry.epoch id (incarnationLog id log)

theorem System.Tracks.step (h : system.Tracks log) (operation : Operation) :
    (system.step native operation).state.Tracks
      (log ++ publishedEvents (system.step native operation).emitted) := by
  intro id stream hFound
  rw [(step_settings operation).2]
  cases step_fate log hFound with
  | kept hStream hLog => exact hLog ▸ h id stream hStream
  | opened now hStream hEvent hLog =>
    exact hLog ▸ newStream_records native system.registry _ _ _ hStream _ hEvent
  | continued now hOld hOpen hNext hEvent hLog =>
    subst hEvent
    exact hLog ▸ (h id _ hOld).continue hNext

theorem Server.tracks (server : Server) (operations : List Operation) :
    (server.state operations).Tracks (server.log operations) := by
  induction operations using List.reverseRecOn with
  | nil =>
    intro id stream hStream
    simp [Server.start, System.initial] at hStream
  | append_singleton operations operation ih =>
    rw [server.state_snoc, server.log_snoc]
    exact ih.step operation

theorem Server.state_limits (server : Server) (operations : List Operation) :
    (server.state operations).registry.limits = server.limits := by
  induction operations using List.reverseRecOn with
  | nil => rfl
  | append_singleton operations operation ih =>
    rw [server.state_snoc, (step_settings operation).1, ih]

/-- A small registry with the given history budget, two streams and two listeners. -/
def smallServer (retention : Nat) : Server :=
  ⟨⟨fun _ => List.replicate 32 7, fun _ => []⟩, ⟨1024, retention, 16384, 2, 2⟩, ascii "epoch",
    default⟩

def talkId : Bytes := ascii "00000000-0000-4000-8000-00000000000a"

def openTalk (incarnation : UInt8) : Operation :=
  .openStream ⟨talkId, some (.direct ⟨ascii "talk", []⟩), [], none⟩ false false (fun _ => 0)
    (fun _ => incarnation) ⟨0, 0⟩

def talkChunk (number : Nat) : Operation := .source talkId ⟨number, number - 1, [7], []⟩ ⟨0, 0⟩

def speaker : Producer :=
  { (default : Producer) with machineId := talkId, configurationSha256 := List.replicate 32 1 }

def sayRevision (revision : Nat) (final : Bool) : Operation :=
  .derived talkId
    ⟨none, some speaker, none, some (.transcript
      { (default : TranscriptSegment) with
        segmentId := talkId
        revision := revision
        final := final
        producer := some speaker
        contributors := [{ (default : Producer) with modelSha256 := List.replicate 32 2 }] })⟩
    [] ⟨0, 0⟩

end GrpcAsr.Media
