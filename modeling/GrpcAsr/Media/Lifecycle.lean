import Mathlib.Data.List.TakeWhile
import GrpcAsr.Media.Incarnations
import GrpcAsr.Library.History

/-!
# Lifecycle and capacity of streams

An incarnation of a stream is published from its opening to its closing event, in
consecutive numbers. It stays registered until an `open` that finds the registry full
reclaims it, which takes the closed stream that closed first. Failed operations change
nothing.
-/

namespace GrpcAsr.Media

set_option autoImplicit false

open Emitting

theorem olderClosed_cases {oldest : Option (Bytes × Stream)} {candidate entry : Bytes × Stream}
    (h : olderClosed oldest candidate = some entry) :
    oldest = some entry ∨ entry = candidate ∧ candidate.2.closed = true := by
  unfold olderClosed at h
  split at h
  · rename_i hClosed
    split at h
    · exact .inr ⟨(Option.some.inj h).symm, hClosed⟩
    · split at h
      · exact .inr ⟨(Option.some.inj h).symm, hClosed⟩
      · exact .inl h
  · exact .inl h

theorem reclaimable_closed {streams : StreamMap} {oldest : Bytes × Stream}
    (h : reclaimable streams = some oldest) :
    streams[oldest.1]? = some oldest.2 ∧ oldest.2.closed = true := by
  have hFold : ∀ entry, reclaimable streams = some entry →
      entry ∈ streams.toList ∧ entry.2.closed = true := by
    refine List.foldlRecOn (motive := fun chosen => ∀ entry, chosen = some entry →
      entry ∈ streams.toList ∧ entry.2.closed = true) streams.toList olderClosed ?_ ?_
    · rintro entry ⟨⟩
    · intro chosen hChosen candidate hCandidate entry hEntry
      rcases olderClosed_cases hEntry with hOld | ⟨rfl, hClosed⟩
      · exact hChosen entry hOld
      · exact ⟨hCandidate, hClosed⟩
  obtain ⟨hMem, hClosed⟩ := hFold oldest h
  exact ⟨Std.TreeMap.mem_toList_iff_getElem?_eq_some.mp hMem, hClosed⟩

/-- The choice closed no later than the stream chosen before and the closed candidate. -/
theorem olderClosed_le {oldest : Option (Bytes × Stream)} {candidate entry : Bytes × Stream}
    (h : oldest = some entry ∨ entry = candidate ∧ candidate.2.closed = true) :
    ∃ chosen, olderClosed oldest candidate = some chosen ∧ chosen.2.closedAt ≤ entry.2.closedAt := by
  unfold olderClosed
  rcases h with rfl | ⟨rfl, hClosed⟩
  · by_cases hClosed : candidate.2.closed = true
    · rw [if_pos hClosed]
      dsimp only
      split
      · exact ⟨candidate, rfl, by omega⟩
      · exact ⟨entry, rfl, le_refl _⟩
    · rw [if_neg hClosed]
      exact ⟨entry, rfl, le_refl _⟩
  · rw [if_pos hClosed]
    cases oldest with
    | none => exact ⟨entry, rfl, le_refl _⟩
    | some chosen =>
      dsimp only
      split
      · exact ⟨entry, rfl, le_refl _⟩
      · exact ⟨chosen, rfl, by omega⟩

theorem foldl_olderClosed_le {entries : List (Bytes × Stream)}
    {oldest : Option (Bytes × Stream)} {entry : Bytes × Stream}
    (h : oldest = some entry ∨ entry ∈ entries ∧ entry.2.closed = true) :
    ∃ chosen, entries.foldl olderClosed oldest = some chosen ∧
      chosen.2.closedAt ≤ entry.2.closedAt := by
  induction entries generalizing oldest entry with
  | nil =>
    rcases h with rfl | ⟨hMem, -⟩
    · exact ⟨entry, rfl, le_refl _⟩
    · exact absurd hMem List.not_mem_nil
  | cons candidate entries ih =>
    have hFirst : (oldest = some entry ∨ entry = candidate ∧ candidate.2.closed = true) ∨
        entry ∈ entries ∧ entry.2.closed = true := by
      rcases h with hOld | ⟨hMem, hClosed⟩
      · exact .inl (.inl hOld)
      · rcases List.mem_cons.mp hMem with rfl | hMem
        · exact .inl (.inr ⟨rfl, hClosed⟩)
        · exact .inr ⟨hMem, hClosed⟩
    rw [List.foldl_cons]
    rcases hFirst with hFirst | hLater
    · obtain ⟨chosen, hChosen, hLe⟩ := olderClosed_le hFirst
      obtain ⟨last, hLast, hLe'⟩ := ih (.inl hChosen)
      exact ⟨last, hLast, hLe'.trans hLe⟩
    · exact ih (.inr hLater)

/-- A closed stream can be reclaimed, and the one taken closed first. -/
theorem reclaimable_oldest {streams : StreamMap} {id : Bytes} {stream : Stream}
    (hStream : streams[id]? = some stream) (hClosed : stream.closed = true) :
    ∃ oldest, reclaimable streams = some oldest ∧ oldest.2.closedAt ≤ stream.closedAt :=
  foldl_olderClosed_le
    (.inr ⟨Std.TreeMap.mem_toList_iff_getElem?_eq_some.mpr hStream, hClosed⟩)

/-- Reclaiming never takes an open stream. -/
theorem reclaim_open {registry : Registry} {id : Bytes} {stream : Stream}
    (hStream : registry.streams[id]? = some stream) (hOpen : stream.closed = false) :
    registry.reclaim.streams[id]? = some stream := by
  unfold Registry.reclaim
  split
  · split
    · rename_i oldest hOldest
      obtain ⟨hFound, hClosed⟩ := reclaimable_closed hOldest
      rw [Std.TreeMap.getElem?_erase, if_neg]
      · exact hStream
      · intro hSame
        rw [Std.LawfulEqCmp.compare_eq_iff_eq] at hSame
        rw [hSame, hStream] at hFound
        rw [← Option.some.inj hFound, hOpen] at hClosed
        cases hClosed
    · exact hStream
  · exact hStream

variable {native : Native} {system : System}

/-- An open stream stays registered. -/
theorem step_registered (operation : Operation) {id : Bytes} {stream : Stream}
    (hStream : system.registry.streams[id]? = some stream) (hOpen : stream.closed = false) :
    ((system.step native operation).state.registry.streams[id]?).isSome = true := by
  have hStep := step_change native system operation
  generalize system.step native operation = outcome at hStep ⊢
  cases hStep with
  | opened target hId hNew =>
    rw [publish_streams]
    split
    · rfl
    · rw [reclaim_open hStream hOpen]
      rfl
  | unopened error => exact Option.isSome_of_eq_some (reclaim_open hStream hOpen)
  | continued target now hOld hOpen hNext =>
    rw [publish_streams]
    split
    · rfl
    · exact Option.isSome_of_eq_some hStream
  | _ => exact Option.isSome_of_eq_some hStream

/-- No terminal event has been published. -/
def Unclosed (own : List StreamEvent) : Prop := ∀ event ∈ own, event.closed? = none

theorem unclosed_append {own : List StreamEvent} {event : StreamEvent} :
    Unclosed (own ++ [event]) ↔ Unclosed own ∧ event.closed? = none := by
  simp [Unclosed, or_imp, forall_and]

theorem derived_inside {event : StreamEvent}
    (h : event.payload.any Payload.isDerived = true) :
    event.opened? = none ∧ event.closed? = none := by
  obtain ⟨cursor, producer, emittedAt, payload⟩ := event
  cases payload with
  | none => cases h
  | some payload => cases payload <;> first | exact ⟨rfl, rfl⟩ | cases h

theorem record_closed (retention : Nat) (stream : Stream) (event : StreamEvent) :
    (stream.record retention event).closed = stream.closed := rfl

theorem Continuation.unclosed_iff {retention : Nat} {epoch id : Bytes} {now : Timestamp}
    {old stream : Stream} {operation : Operation} {draft : EventDraft} (hOpen : old.closed = false)
    (h : Continuation retention id now old operation stream draft) :
    stream.closed = false ↔ (stream.stamp epoch id now draft).closed? = none := by
  cases h with
  | source chunk => simp [hOpen, StreamEvent.closed?, Stream.stamp, EventDraft.of]
  | closed closed steadyNow => simp [StreamEvent.closed?, Stream.stamp, EventDraft.of]
  | derived hPayload hDerive =>
    obtain ⟨snapshot, hAttributed, -, -, rfl⟩ := derive_eq_ok hDerive
    exact iff_of_true hOpen (derived_inside ((attributeTo_payload hAttributed).trans hPayload)).2

/-- A registered stream is open exactly while its terminal event is missing. -/
theorem Server.closed_iff (server : Server) (operations : List Operation) :
    ∀ (id : Bytes) (stream : Stream),
      (server.state operations).registry.streams[id]? = some stream →
      (stream.closed = false ↔ Unclosed (incarnationLog id (server.log operations))) := by
  induction operations using List.reverseRecOn with
  | nil =>
    intro id stream hStream
    simp [Server.start, System.initial] at hStream
  | append_singleton operations operation ih =>
    intro id stream hStream
    rw [server.state_snoc] at hStream
    rw [server.log_snoc]
    cases step_fate (server.log operations) hStream with
    | kept hStream hLog => rw [hLog, ih id stream hStream]
    | opened now hNew hEvent hLog =>
      rw [hLog, record_closed, hNew, hEvent]
      refine iff_of_true rfl ?_
      intro event hEvent
      rw [List.mem_singleton.mp hEvent]
      rfl
    | continued now hOld hOpen hNext hEvent hLog =>
      rw [hLog, hEvent, record_closed, hNext.unclosed_iff hOpen, unclosed_append,
        ← ih id _ hOld]
      exact (and_iff_right hOpen).symm

/-- The events of a stream up to its next opening. -/
def untilReopened (id : Bytes) (after : List StreamEvent) : List StreamEvent :=
  (after.filter fun event => event.cursor.streamId = id).takeWhile fun event =>
    event.opened?.isNone

/-- The stream has not been opened again. -/
def Current (id : Bytes) (after : List StreamEvent) : Prop :=
  ∀ event ∈ after, event.cursor.streamId = id → event.opened? = none

theorem current_snoc {id : Bytes} {after : List StreamEvent} {event : StreamEvent} :
    Current id (after ++ [event]) ↔
      Current id after ∧ (event.cursor.streamId = id → event.opened? = none) := by
  simp [Current, or_imp, forall_and]

theorem untilReopened_eq_iff {id : Bytes} {after : List StreamEvent} :
    untilReopened id after = (after.filter fun event => event.cursor.streamId = id) ↔
      Current id after := by
  simp [untilReopened, Current, List.takeWhile_eq_self_iff]

/-- A later event is part of the incarnation only if the stream is current and the event
continues it. -/
theorem untilReopened_snoc {id : Bytes} {after : List StreamEvent} {event : StreamEvent}
    (h : Current id after → event.cursor.streamId = id → event.opened?.isSome = true) :
    untilReopened id (after ++ [event]) = untilReopened id after := by
  by_cases hSame : event.cursor.streamId = id
  · rw [untilReopened, List.filter_append, List.takeWhile_append]
    split
    · rename_i hLength
      have hWhole := (List.takeWhile_prefix _).eq_of_length hLength
      have hOpened := h (untilReopened_eq_iff.mp hWhole) hSame
      rw [untilReopened, hWhole]
      simp [hSame, Option.isSome_iff_ne_none.mp hOpened]
    · rfl
  · rw [untilReopened, List.filter_append]
    simp [hSame, untilReopened]

theorem untilReopened_continued {id : Bytes} {after : List StreamEvent} {event : StreamEvent}
    (h : Current id after) (hId : event.cursor.streamId = id) (hEvent : event.opened? = none) :
    untilReopened id (after ++ [event]) = untilReopened id after ++ [event] := by
  rw [untilReopened_eq_iff.mpr h, untilReopened_eq_iff.mpr (current_snoc.mpr ⟨h, fun _ => hEvent⟩),
    List.filter_append]
  simp [hId]

theorem incarnationLog_current {id : Bytes} {before after : List StreamEvent}
    {opened : StreamEvent} (hOpened : opened.opened?.isSome = true)
    (hId : opened.cursor.streamId = id) (h : Current id after) :
    incarnationLog id (before ++ opened :: after) = opened :: untilReopened id after := by
  rw [untilReopened_eq_iff.mpr h]
  induction after using List.reverseRecOn with
  | nil => rw [incarnationLog_snoc, if_pos hId, if_pos hOpened, List.filter_nil]
  | append_singleton after event ih =>
    obtain ⟨hAfter, hEvent⟩ := current_snoc.mp h
    rw [← List.cons_append, ← List.append_assoc, incarnationLog_snoc, ih hAfter, List.filter_append]
    by_cases hSame : event.cursor.streamId = id
    · simp [hSame, hEvent hSame]
    · simp [hSame]

/-- What a step can publish: the opening of an unregistered stream, or the continuation of
an open one. -/
inductive Publishes (system : System) : List StreamEvent → Prop
  | nothing : Publishes system []
  | opening (event : StreamEvent) (hEvent : event.opened?.isSome = true)
      (hNew : system.registry.streams[event.cursor.streamId]? = none) : Publishes system [event]
  | continuing (event : StreamEvent) (hEvent : event.opened? = none) (old : Stream)
      (hOld : system.registry.streams[event.cursor.streamId]? = some old)
      (hOpen : old.closed = false) : Publishes system [event]

theorem step_publishes (native : Native) (system : System) (operation : Operation) :
    Publishes system (publishedEvents (system.step native operation).emitted) := by
  have hStep := step_change native system operation
  generalize system.step native operation = outcome at hStep ⊢
  cases hStep with
  | opened id hId hNew =>
    rw [publishedEvents_publish]
    exact .opening _ rfl hNew
  | continued id now hOld hOpen hNext =>
    rw [publishedEvents_publish]
    exact .continuing _ (stamp_opened_none hNext) _ hOld hOpen
  | received handle sub hBox =>
    rw [publishedEvents_delivered]
    exact .nothing
  | _ => exact .nothing

theorem step_publishes_registered {operation : Operation} {event : StreamEvent}
    (h : publishedEvents (system.step native operation).emitted = [event]) :
    ((system.step native operation).state.registry.streams[event.cursor.streamId]?).isSome =
      true := by
  have hPublication := step_publication native system operation
  rw [h] at hPublication
  cases hPublication with
  | one _ stream hStream => exact Option.isSome_of_eq_some hStream

/-- The registry is full and none of its streams can be reclaimed. -/
def Registry.Exhausted (registry : Registry) : Prop :=
  registry.streams.size = registry.limits.maxStreams ∧
    ∀ (id : Bytes) (stream : Stream), registry.streams[id]? = some stream → stream.closed = false

theorem contains_eq_true {streams : StreamMap} {id : Bytes} {stream : Stream}
    (h : streams[id]? = some stream) : streams.contains id = true := by
  rw [Std.TreeMap.contains_iff_mem, Std.TreeMap.mem_iff_isSome_getElem?, h]
  rfl

theorem size_erase_lt {streams : StreamMap} {id : Bytes} {stream : Stream}
    (h : streams[id]? = some stream) : (streams.erase id).size < streams.size := by
  have hNonempty := Std.TreeMap.isEmpty_eq_false_of_contains (contains_eq_true h)
  rw [Std.TreeMap.isEmpty_eq_size_eq_zero, beq_eq_false_iff_ne] at hNonempty
  rw [Std.TreeMap.size_erase, if_pos (contains_eq_true h)]
  omega

/-- After reclaiming there is room for a stream unless the registry is exhausted. -/
theorem reclaim_room_iff {registry : Registry}
    (hCapacity : registry.streams.size ≤ registry.limits.maxStreams) :
    registry.reclaim.streams.size < registry.limits.maxStreams ↔ ¬registry.Exhausted := by
  unfold Registry.reclaim
  split
  · split
    · rename_i oldest hOldest
      obtain ⟨hFound, hClosed⟩ := reclaimable_closed hOldest
      refine iff_of_true ((size_erase_lt hFound).trans_le hCapacity) fun hExhausted => ?_
      rw [hExhausted.2 _ _ hFound] at hClosed
      cases hClosed
    · rename_i hFull hNone
      refine iff_of_false (by omega) (not_not_intro ⟨by omega, fun id stream hStream => ?_⟩)
      by_contra hClosed
      obtain ⟨oldest, hOldest, -⟩ := reclaimable_oldest hStream (by simpa using hClosed)
      rw [hNone] at hOldest
      cases hOldest
  · rename_i hRoom
    exact iff_of_true (by omega) fun hExhausted => hRoom hExhausted.1.ge

theorem Registry.Exhausted.reclaim {registry : Registry} (h : registry.Exhausted) :
    registry.reclaim = registry := by
  unfold Registry.reclaim
  split
  · split
    · rename_i oldest hOldest
      obtain ⟨hFound, hClosed⟩ := reclaimable_closed hOldest
      rw [h.2 _ _ hFound] at hClosed
      cases hClosed
    · rfl
  · rfl

/-- An `open` refused for want of room has reclaimed nothing. -/
theorem reclaim_of_full {registry : Registry}
    (hCapacity : registry.streams.size ≤ registry.limits.maxStreams)
    (hFull : ¬registry.reclaim.streams.size < registry.limits.maxStreams) :
    registry.reclaim = registry := by
  rw [reclaim_room_iff hCapacity, not_not] at hFull
  exact hFull.reclaim

/-- No more streams are registered than the limit allows. -/
def System.WithinCapacity (system : System) : Prop :=
  system.registry.streams.size ≤ system.registry.limits.maxStreams

theorem System.WithinCapacity.step (h : system.WithinCapacity) (operation : Operation) :
    (system.step native operation).state.WithinCapacity := by
  have hStep := step_change native system operation
  generalize system.step native operation = outcome at hStep ⊢
  cases hStep with
  | opened id hId hNew hValid hRoom =>
    simp only [System.WithinCapacity, System.publish, reclaim_limits]
    exact Std.TreeMap.size_insert_le.trans hRoom
  | unopened error hFull =>
    rw [System.WithinCapacity, System.refuse, reclaim_of_full h hFull]
    exact h
  | continued id now hOld hOpen hNext =>
    simp only [System.WithinCapacity, System.publish]
    rw [Std.TreeMap.size_insert, if_pos (contains_eq_true hOld)]
    exact h
  | _ => exact h

theorem Server.withinCapacity (server : Server) (operations : List Operation) :
    (server.state operations).WithinCapacity := by
  induction operations using List.reverseRecOn with
  | nil => exact Nat.zero_le _
  | append_singleton operations operation ih =>
    rw [server.state_snoc]
    exact ih.step operation

/-- The only change is that entries of listeners that no longer hold their mailbox may be
gone. -/
structure System.Unchanged (system after : System) : Prop where
  state : after = { system with
    registry := { system.registry with subscribers := after.registry.subscribers } }
  kept : after.registry.subscribers.Sublist system.registry.subscribers
  expired : ∀ handle ∈ system.registry.subscribers, handle ∉ after.registry.subscribers →
    system.held handle = false

theorem System.Unchanged.refl (system : System) : system.Unchanged system :=
  ⟨rfl, List.Sublist.refl _, fun _ hMem hNot => absurd hMem hNot⟩

/-- A registry operation that fails publishes and delivers nothing and leaves every stream,
mailbox and live listener as it was. -/
theorem failed_operation_changes_nothing (server : Server) (operations : List Operation)
    (operation : Operation)
    (hFailed :
      ((server.state operations).step server.native operation).error.isSome = true) :
    ((server.state operations).step server.native operation).emitted = [] ∧
      (server.state operations).Unchanged
        ((server.state operations).step server.native operation).state := by
  have hCapacity := server.withinCapacity operations
  have hStep := step_change server.native (server.state operations) operation
  generalize (server.state operations).step server.native operation = outcome at hStep hFailed ⊢
  cases hStep with
  | unopened error hFull =>
    rw [reclaim_of_full hCapacity hFull]
    exact ⟨rfl, .refl _⟩
  | refused => exact ⟨rfl, .refl _⟩
  | unsubscribed error =>
    refine ⟨rfl, rfl, List.filter_sublist, fun handle hMem hNot => ?_⟩
    by_contra hHeld
    exact hNot (List.mem_filter.mpr ⟨hMem, by simpa using hHeld⟩)
  | opened | continued | subscribed | received | nothing | cancelled | released => cases hFailed

def guestId : Bytes := ascii "00000000-0000-4000-8000-00000000000b"

def openGuest : Operation :=
  .openStream ⟨guestId, some (.direct ⟨ascii "guest", []⟩), [], none⟩ false false (fun _ => 0)
    (fun _ => 3) ⟨0, 0⟩

def openUnnamed : Operation :=
  .openStream ⟨[], some (.direct ⟨[], []⟩), [], none⟩ false false (fun _ => 4) (fun _ => 5) ⟨0, 0⟩

theorem failed_operation_changes_nothing_full :
    (((smallServer 4096).state [openTalk 1, openGuest]).step (smallServer 4096).native
        openUnnamed).error =
      some ⟨.resourceExhausted, "registry stream limit reached"⟩ ∧
    ((smallServer 4096).state [openTalk 1, openGuest]).Unchanged
      (((smallServer 4096).state [openTalk 1, openGuest]).step (smallServer 4096).native
        openUnnamed).state :=
  ⟨by decide +kernel,
    (failed_operation_changes_nothing (smallServer 4096) [openTalk 1, openGuest] openUnnamed
      (by decide +kernel)).2⟩

/-- The events of an incarnation: an opening event and what was published for its stream
before it was opened again. -/
def IsIncarnationOf (log own : List StreamEvent) : Prop :=
  ∃ before opened after, log = before ++ opened :: after ∧ opened.opened?.isSome = true ∧
    own = opened :: untilReopened opened.cursor.streamId after

/-- One opening event, then events that neither open nor close, then at most one closing
event, numbered from one. -/
structure Lifecycle (epoch : Bytes) (own : List StreamEvent) : Prop where
  shape : ∃ opened inside closing, own = opened :: inside ++ closing ∧
    opened.opened?.isSome = true ∧
    (∀ event ∈ inside, event.opened? = none ∧ event.closed? = none) ∧
    closing.length ≤ 1 ∧ ∀ event ∈ closing, event.closed?.isSome = true
  cursors : ∃ id incarnation, own.map StreamEvent.cursor =
    (List.range' 1 own.length).map fun n => ⟨epoch, id, n, incarnation⟩

theorem Lifecycle.snoc {epoch : Bytes} {own : List StreamEvent} {event : StreamEvent}
    (h : Lifecycle epoch own) (hOpen : Unclosed own) (hEvent : event.opened? = none)
    (hCursors : ∃ id incarnation, (own ++ [event]).map StreamEvent.cursor =
      (List.range' 1 (own ++ [event]).length).map fun n => ⟨epoch, id, n, incarnation⟩) :
    Lifecycle epoch (own ++ [event]) := by
  obtain ⟨opened, inside, closing, rfl, hOpened, hInside, -, hClosing⟩ := h.shape
  have hNone : closing = [] := by
    refine List.eq_nil_iff_forall_not_mem.mpr fun last hLast => ?_
    have hClosed := hClosing last hLast
    rw [hOpen last (List.mem_append_right _ hLast)] at hClosed
    cases hClosed
  subst hNone
  refine ⟨?_, hCursors⟩
  cases hClosed : event.closed? with
  | none =>
    refine ⟨opened, inside ++ [event], [], by simp, hOpened, ?_, by simp, by simp⟩
    intro other hOther
    rcases List.mem_append.mp hOther with hOld | hLast
    · exact hInside other hOld
    · rw [List.mem_singleton.mp hLast]
      exact ⟨hEvent, hClosed⟩
  | some closed =>
    exact ⟨opened, inside, [event], by simp, hOpened, hInside, by simp, by simp [hClosed]⟩

/-- An incarnation after one more event is the event alone or an incarnation before. -/
theorem isIncarnationOf_snoc {log own : List StreamEvent} {event : StreamEvent}
    (h : IsIncarnationOf (log ++ [event]) own) :
    event.opened?.isSome = true ∧ own = [event] ∨
      ∃ before opened after, log = before ++ opened :: after ∧ opened.opened?.isSome = true ∧
        own = opened :: untilReopened opened.cursor.streamId (after ++ [event]) := by
  obtain ⟨before, opened, after, hSplit, hOpened, rfl⟩ := h
  rcases History.snoc_eq_append_cons.mp hSplit with ⟨-, rfl, rfl⟩ | ⟨rest, rfl, hLog⟩
  · exact .inl ⟨hOpened, rfl⟩
  · exact .inr ⟨before, opened, rest, hLog, hOpened, rfl⟩

theorem Server.state_epoch (server : Server) (operations : List Operation) :
    (server.state operations).registry.epoch = server.epoch := by
  induction operations using List.reverseRecOn with
  | nil => rfl
  | append_singleton operations operation ih =>
    rw [server.state_snoc, (step_settings operation).2, ih]

/-- The incarnation of a published event is numbered from one. -/
theorem Server.published_cursors (server : Server) (operations : List Operation)
    {operation : Operation} {event : StreamEvent}
    (h : publishedEvents ((server.state operations).step server.native operation).emitted =
      [event]) :
    ∃ id incarnation,
      (incarnationLog event.cursor.streamId (server.log operations ++ [event])).map
          StreamEvent.cursor =
        (List.range' 1
          (incarnationLog event.cursor.streamId (server.log operations ++ [event])).length).map
          fun n => ⟨server.epoch, id, n, incarnation⟩ := by
  obtain ⟨stream, hStream⟩ := Option.isSome_iff_exists.mp (step_publishes_registered h)
  have hRecords := server.tracks (operations ++ [operation]) event.cursor.streamId stream
  rw [server.state_epoch, server.state_snoc, server.log_snoc, h] at hRecords
  exact ⟨_, _, (hRecords hStream).cursors⟩

theorem Server.incarnation_lifecycle (server : Server) (operations : List Operation) :
    ∀ own, IsIncarnationOf (server.log operations) own → Lifecycle server.epoch own := by
  induction operations using List.reverseRecOn with
  | nil =>
    rintro own ⟨before, opened, after, hSplit, -⟩
    cases before <;> cases hSplit
  | append_singleton operations operation ih =>
    intro own h
    have hPublishes := step_publishes server.native (server.state operations) operation
    rw [server.log_snoc] at h
    generalize hEvents : publishedEvents
      ((server.state operations).step server.native operation).emitted = events at h hPublishes
    cases hPublishes with
    | nothing => exact ih own (by simpa using h)
    | opening event hEvent hNew =>
      rcases isIncarnationOf_snoc h with ⟨-, rfl⟩ | ⟨before, opened, after, hSplit, hOpened, rfl⟩
      · have hCursors := server.published_cursors operations hEvents
        rw [incarnationLog_snoc, if_pos rfl, if_pos hEvent] at hCursors
        exact ⟨⟨event, [], [], rfl, hEvent, by simp, by simp, by simp⟩, hCursors⟩
      · rw [untilReopened_snoc fun _ _ => hEvent]
        exact ih _ ⟨before, opened, after, hSplit, hOpened, rfl⟩
    | continuing event hEvent old hOld hOpen =>
      rcases isIncarnationOf_snoc h with ⟨hOpened, -⟩ | ⟨before, opened, after, hSplit, hOpened, rfl⟩
      · rw [hEvent] at hOpened
        cases hOpened
      · have hBefore := ih _ ⟨before, opened, after, hSplit, hOpened, rfl⟩
        by_cases hOwn : Current opened.cursor.streamId after ∧
            event.cursor.streamId = opened.cursor.streamId
        · obtain ⟨hCurrent, hSame⟩ := hOwn
          have hLog := @incarnationLog_current _ before after opened hOpened rfl hCurrent
          rw [← hSplit, ← hSame] at hLog
          have hCursors := server.published_cursors operations hEvents
          rw [incarnationLog_snoc, if_pos rfl, hEvent, hLog] at hCursors
          have hUnclosed := (server.closed_iff operations _ old hOld).mp hOpen
          rw [hLog] at hUnclosed
          rw [← hSame] at hBefore hCurrent ⊢
          rw [untilReopened_continued hCurrent rfl hEvent, ← List.cons_append]
          exact hBefore.snoc hUnclosed hEvent hCursors
        · rw [untilReopened_snoc fun hCurrent hSame => absurd ⟨hCurrent, hSame⟩ hOwn]
          exact hBefore

/-- The last opening of a registered stream in the log. -/
theorem Server.registered_opened (server : Server) (operations : List Operation) :
    ∀ (id : Bytes) (stream : Stream),
      (server.state operations).registry.streams[id]? = some stream →
      ∃ before opened after, server.log operations = before ++ opened :: after ∧
        opened.opened?.isSome = true ∧ opened.cursor.streamId = id ∧ Current id after := by
  induction operations using List.reverseRecOn with
  | nil =>
    intro id stream hStream
    simp [Server.start, System.initial] at hStream
  | append_singleton operations operation ih =>
    intro id stream hStream
    rw [server.state_snoc] at hStream
    rw [server.log_snoc]
    have hPublication := step_publication server.native (server.state operations) operation
    generalize publishedEvents ((server.state operations).step server.native operation).emitted =
      events at hPublication ⊢
    have hContinue (event : StreamEvent) (hEvent : event.cursor.streamId = id → event.opened? = none)
        {found : Stream} (hFound : (server.state operations).registry.streams[id]? = some found) :
        ∃ before opened after, server.log operations ++ [event] = before ++ opened :: after ∧
          opened.opened?.isSome = true ∧ opened.cursor.streamId = id ∧ Current id after := by
      obtain ⟨before, opened, after, hSplit, hOpened, hId, hCurrent⟩ := ih id found hFound
      exact ⟨before, opened, after ++ [event], by rw [hSplit]; simp, hOpened, hId,
        current_snoc.mpr ⟨hCurrent, hEvent⟩⟩
    cases hPublication with
    | none hStreams =>
      rw [List.append_nil]
      exact ih id stream (hStreams id stream hStream)
    | one event published hPublished hHome hOthers hNumber =>
      by_cases hSame : event.cursor.streamId = id
      · rcases hNumber with ⟨hOpened, -⟩ | ⟨old, hOld, hNotOpening, -⟩
        · exact ⟨_, event, [], rfl, hOpened, hSame, by simp [Current]⟩
        · exact hContinue event (fun _ => hNotOpening) (hSame ▸ hOld)
      · exact hContinue event (fun hEq => absurd hEq hSame) (hOthers id stream hSame hStream)

theorem mem_untilReopened_snoc {id : Bytes} {after : List StreamEvent} {event last : StreamEvent}
    (h : event ∈ untilReopened id after) : event ∈ untilReopened id (after ++ [last]) := by
  rw [untilReopened, List.filter_append, List.takeWhile_append]
  split
  · rename_i hLength
    rw [untilReopened, (List.takeWhile_prefix _).eq_of_length hLength] at h
    exact List.mem_append_left _ h
  · exact h

/-- Every published event belongs to an incarnation. -/
theorem Server.event_in_incarnation (server : Server) (operations : List Operation) :
    ∀ event ∈ server.log operations,
      ∃ own, IsIncarnationOf (server.log operations) own ∧ event ∈ own := by
  induction operations using List.reverseRecOn with
  | nil => exact fun event hEvent => absurd hEvent List.not_mem_nil
  | append_singleton operations operation ih =>
    have hPublishes := step_publishes server.native (server.state operations) operation
    rw [server.log_snoc]
    generalize publishedEvents ((server.state operations).step server.native operation).emitted =
      events at hPublishes
    have hEarlier (last event : StreamEvent) (hEvent : event ∈ server.log operations) :
        ∃ own, IsIncarnationOf (server.log operations ++ [last]) own ∧ event ∈ own := by
      obtain ⟨own, ⟨before, opened, after, hSplit, hOpened, rfl⟩, hMem⟩ := ih event hEvent
      refine ⟨_, ⟨before, opened, after ++ [last], by rw [hSplit]; simp, hOpened, rfl⟩, ?_⟩
      rcases List.mem_cons.mp hMem with rfl | hMem
      · exact List.mem_cons_self
      · exact List.mem_cons_of_mem _ (mem_untilReopened_snoc hMem)
    cases hPublishes with
    | nothing => simpa using ih
    | opening event hEvent hNew =>
      intro other hOther
      rcases List.mem_append.mp hOther with hOld | hLast
      · exact hEarlier event other hOld
      · rw [List.mem_singleton.mp hLast]
        exact ⟨[event], ⟨_, event, [], rfl, hEvent, rfl⟩, List.mem_cons_self⟩
    | continuing event hEvent old hOld hOpen =>
      intro other hOther
      rcases List.mem_append.mp hOther with hOld' | hLast
      · exact hEarlier event other hOld'
      · obtain ⟨before, opened, after, hSplit, hOpened, hId, hCurrent⟩ :=
          server.registered_opened operations _ old hOld
        rw [List.mem_singleton.mp hLast]
        refine ⟨_, ⟨before, opened, after ++ [event], by rw [hSplit]; simp, hOpened, rfl⟩, ?_⟩
        rw [hId, untilReopened_continued hCurrent rfl hEvent]
        simp

/-- The stream is taken by an `open` that finds the registry full, and it closed first. -/
structure System.Reclaims (system : System) (operation : Operation) (stream : Stream) : Prop where
  opening : ∃ request speechEnabled httpEnabled idEntropy incarnationEntropy now,
    operation = .openStream request speechEnabled httpEnabled idEntropy incarnationEntropy now
  full : system.registry.streams.size = system.registry.limits.maxStreams
  closed : stream.closed = true
  oldest : ∀ (other : Bytes) (found : Stream), system.registry.streams[other]? = some found →
    found.closed = true → stream.closedAt ≤ found.closedAt

theorem reclaim_keeps {registry : Registry} {id : Bytes} {stream : Stream}
    (hStream : registry.streams[id]? = some stream) :
    registry.reclaim.streams[id]? = some stream ∨
      registry.limits.maxStreams ≤ registry.streams.size ∧ stream.closed = true ∧
        ∀ (other : Bytes) (found : Stream), registry.streams[other]? = some found →
          found.closed = true → stream.closedAt ≤ found.closedAt := by
  unfold Registry.reclaim
  split
  · rename_i hFull
    split
    · rename_i oldest hOldest
      rw [Std.TreeMap.getElem?_erase]
      split
      · rename_i hSame
        rw [Std.LawfulEqCmp.compare_eq_iff_eq] at hSame
        obtain ⟨hFound, hClosed⟩ := reclaimable_closed hOldest
        obtain rfl := Option.some.inj ((hSame ▸ hFound).symm.trans hStream)
        refine .inr ⟨hFull, hClosed, fun other found hOther hOtherClosed => ?_⟩
        obtain ⟨chosen, hChosen, hLe⟩ := reclaimable_oldest hOther hOtherClosed
        rw [hOldest] at hChosen
        cases hChosen
        exact hLe
      · exact .inl hStream
    · exact .inl hStream
  · exact .inl hStream

/-- A registered stream stays registered in its incarnation unless it is reclaimed. -/
theorem step_keeps (hCapacity : system.WithinCapacity) (operation : Operation) {id : Bytes}
    {stream : Stream} (hStream : system.registry.streams[id]? = some stream) :
    (∃ stream', (system.step native operation).state.registry.streams[id]? = some stream' ∧
      stream'.incarnation = stream.incarnation) ∨ system.Reclaims operation stream := by
  have hStep := step_change native system operation
  generalize system.step native operation = outcome at hStep ⊢
  cases hStep with
  | opened target hId hNew hValid hRoom =>
    rw [publish_streams, if_neg (by rintro rfl; rw [hNew] at hStream; cases hStream)]
    rcases reclaim_keeps hStream with hKept | ⟨hFull, hClosed, hOldest⟩
    · exact .inl ⟨stream, hKept, rfl⟩
    · exact .inr ⟨⟨_, _, _, _, _, _, rfl⟩, hCapacity.antisymm hFull, hClosed, hOldest⟩
  | unopened error hFull =>
    rw [System.refuse, reclaim_of_full hCapacity hFull]
    exact .inl ⟨stream, hStream, rfl⟩
  | continued target now hOld hOpen hNext =>
    rw [publish_streams]
    split
    · rename_i hSame
      subst hSame
      obtain rfl := Option.some.inj (hOld.symm.trans hStream)
      exact .inl ⟨_, rfl, hNext.frame.1⟩
    · exact .inl ⟨stream, hStream, rfl⟩
  | _ => exact .inl ⟨stream, hStream, rfl⟩

theorem openStream_error {request : OpenStream} {speechEnabled httpEnabled : Bool}
    {idEntropy incarnationEntropy : Entropy} {now : Timestamp} {id : Bytes}
    (hCapacity : system.WithinCapacity)
    (hChecked : request.admissible speechEnabled httpEnabled = .ok ())
    (hId : id = if request.streamId.isEmpty then uuid idEntropy else request.streamId)
    (hValid : validUuid id = true) (hNew : system.registry.streams[id]? = none) :
    system.registry.Exhausted ∧
        (system.openStream native request speechEnabled httpEnabled idEntropy incarnationEntropy
          now).error = some ⟨.resourceExhausted, "registry stream limit reached"⟩ ∨
      ¬system.registry.Exhausted ∧
        (system.openStream native request speechEnabled httpEnabled idEntropy incarnationEntropy
          now).error = none := by
  have hAbsent : system.registry.streams.contains id = false := by
    rw [Bool.eq_false_iff, ne_eq, Std.TreeMap.contains_iff_mem, Std.TreeMap.mem_iff_isSome_getElem?,
      hNew]
    simp
  have hRoom := reclaim_room_iff hCapacity
  unfold System.openStream
  rw [← hId]
  simp only [hChecked, require, hValid, hAbsent, reclaim_limits, Bool.not_false, if_true, bind,
    Except.bind]
  split
  · rename_i hFits
    exact .inr ⟨hRoom.mp hFits, rfl⟩
  · rename_i hFull
    exact .inl ⟨not_not.mp fun hNot => hFull (hRoom.mpr hNot), rfl⟩

/-- A closed stream has a closing event in the log of its incarnation. -/
theorem Server.closing_event (server : Server) (operations : List Operation) {id : Bytes}
    {stream : Stream} (hStream : (server.state operations).registry.streams[id]? = some stream)
    (hClosed : stream.closed = true) :
    ∃ event ∈ incarnationLog id (server.log operations),
      event.cursor.streamIncarnation = stream.incarnation ∧ event.closed?.isSome = true := by
  have hNot : ¬Unclosed (incarnationLog id (server.log operations)) := by
    rw [← server.closed_iff operations id stream hStream, hClosed]
    exact Bool.noConfusion
  simp only [Unclosed, not_forall] at hNot
  obtain ⟨event, hEvent, hClosing⟩ := hNot
  refine ⟨event, hEvent, ?_, Option.isSome_iff_ne_none.mpr hClosing⟩
  have hCursor := List.mem_map_of_mem (f := StreamEvent.cursor) hEvent
  rw [(server.tracks operations id stream hStream).cursors, List.mem_map] at hCursor
  obtain ⟨n, -, hCursor⟩ := hCursor
  rw [← hCursor]

/-- Streams stay within the limit, every incarnation is published from one opening to at
most one closing event, only the stream that closed first is reclaimed and only by an
`open` that finds the registry full, and an `open` for a new stream fails exactly when no
stream can be reclaimed. -/
theorem stream_lifecycle (server : Server) (operations : List Operation) :
    (server.state operations).registry.streams.size ≤ server.limits.maxStreams ∧
    (∀ own, IsIncarnationOf (server.log operations) own → Lifecycle server.epoch own) ∧
    (∀ event ∈ server.log operations,
      ∃ own, IsIncarnationOf (server.log operations) own ∧ event ∈ own) ∧
    (∀ (id : Bytes) (stream : Stream) (operation : Operation),
      (server.state operations).registry.streams[id]? = some stream →
      (∃ stream', (server.state (operations ++ [operation])).registry.streams[id]? =
        some stream' ∧ stream'.incarnation = stream.incarnation) ∨
      (server.state operations).Reclaims operation stream ∧
        ∃ event ∈ incarnationLog id (server.log operations),
          event.cursor.streamIncarnation = stream.incarnation ∧ event.closed?.isSome = true) ∧
    ∀ (request : OpenStream) (speechEnabled httpEnabled : Bool)
      (idEntropy incarnationEntropy : Entropy) (now : Timestamp) (id : Bytes),
      request.admissible speechEnabled httpEnabled = .ok () →
      id = (if request.streamId.isEmpty then uuid idEntropy else request.streamId) →
      validUuid id = true → (server.state operations).registry.streams[id]? = none →
      (server.state operations).registry.Exhausted ∧
          ((server.state operations).step server.native (.openStream request speechEnabled
            httpEnabled idEntropy incarnationEntropy now)).error =
            some ⟨.resourceExhausted, "registry stream limit reached"⟩ ∨
        ¬(server.state operations).registry.Exhausted ∧
          ((server.state operations).step server.native (.openStream request speechEnabled
            httpEnabled idEntropy incarnationEntropy now)).error = none := by
  have hCapacity := server.withinCapacity operations
  refine ⟨?_, server.incarnation_lifecycle operations, server.event_in_incarnation operations, ?_, ?_⟩
  · rw [← server.state_limits operations]
    exact hCapacity
  · intro id stream operation hStream
    rw [server.state_snoc]
    rcases step_keeps hCapacity operation hStream with hKept | hReclaims
    · exact .inl hKept
    · exact .inr ⟨hReclaims, server.closing_event operations hStream hReclaims.closed⟩
  · intro request speechEnabled httpEnabled idEntropy incarnationEntropy now id hChecked hId hValid
      hNew
    exact openStream_error hCapacity hChecked hId hValid hNew

theorem stream_lifecycle_full :
    ((smallServer 4096).state [openTalk 1, openGuest]).registry.Exhausted ∧
    (((smallServer 4096).state [openTalk 1, openGuest]).step (smallServer 4096).native
        openUnnamed).error =
      some ⟨.resourceExhausted, "registry stream limit reached"⟩ := by
  have hOpened := (stream_lifecycle (smallServer 4096) [openTalk 1, openGuest]).2.2.2.2
    ⟨[], some (.direct ⟨[], []⟩), [], none⟩ false false (fun _ => 4) (fun _ => 5) ⟨0, 0⟩ _
    (by decide +kernel) rfl (by decide +kernel) (by decide +kernel)
  rcases hOpened with hFull | ⟨-, hNone⟩
  · exact hFull
  · have hError : (((smallServer 4096).state [openTalk 1, openGuest]).step (smallServer 4096).native
        openUnnamed).error.isSome = true := by decide +kernel
    rw [openUnnamed, hNone] at hError
    cases hError

end GrpcAsr.Media
