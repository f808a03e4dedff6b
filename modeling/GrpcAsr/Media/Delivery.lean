import GrpcAsr.Media.Incarnations
import GrpcAsr.Media.Mailboxes

/-!
# Delivery across hydration and live events

What a running listener receives of an incarnation is what was published for it from a
start that the request fixes: right after a replay cursor, at the first retained event,
or at the first event published after the subscription. Hydration and live events meet
at the marks the hydration begins with.
-/

namespace GrpcAsr.Media

set_option autoImplicit false

open Emitting

def eventsIn (responses : List SubscribeResponse) : List StreamEvent :=
  responses.filterMap fun
    | .event event => some event
    | _ => none

@[simp] theorem eventsIn_append (a b : List SubscribeResponse) :
    eventsIn (a ++ b) = eventsIn a ++ eventsIn b := List.filterMap_append ..

@[simp] theorem eventsIn_map_event (events : List StreamEvent) :
    eventsIn (events.map .event) = events := by
  rw [eventsIn, List.filterMap_map]
  exact List.filterMap_some

/-- The first event of an incarnation that a request made in this state is owed. -/
def replayStart (system : System) (log : List StreamEvent) (request : SubscribeRequest)
    (home : Bytes × Bytes) : Nat :=
  match system.registry.streams[home.1]? with
  | some stream =>
    if stream.incarnation = home.2 ∧ request.hydration.retainedEvents = true then
      match request.hydration.after.find? fun cursor => cursor.streamId = home.1 with
      | some cursor => cursor.eventSequence + 1
      | none => stream.snapshot.firstRetainedSequence
    else (incarnationEvents home log).length + 1
  | none => (incarnationEvents home log).length + 1

theorem enqueue_all {responses : List SubscribeResponse} {sub sub' : Subscription}
    (h : responses.foldlM System.enqueue sub = .ok sub') :
    sub'.pending = sub.pending ++ responses ∧ sub'.ids = sub.ids ∧ sub'.kinds = sub.kinds ∧
      sub'.stopped = sub.stopped := by
  induction responses generalizing sub with
  | nil =>
    cases h
    simp
  | cons response responses ih =>
    rw [List.foldlM_cons] at h
    obtain ⟨queued, hQueued, h⟩ := bind_eq_ok h
    obtain ⟨hPending, hIds, hKinds, hStopped⟩ := ih h
    unfold System.enqueue at hQueued
    split at hQueued
    · rename_i hPush
      cases hQueued
      rw [Subscription.push_ok hPush] at hPending hIds hKinds hStopped
      exact ⟨by simpa using hPending, hIds, hKinds, hStopped⟩
    · cases hQueued

/-- What an accepted replay cursor says about its stream. -/
structure Replayable (registry : Registry) (cursor : Cursor) (stream : Stream) : Prop where
  found : registry.streams[cursor.streamId]? = some stream
  incarnation : cursor.streamIncarnation = stream.incarnation
  reached : cursor.eventSequence ≤ stream.sequence
  retained : stream.snapshot.firstRetainedSequence - 1 ≤ cursor.eventSequence

theorem replayCursor_eq_ok {registry : Registry} {sub : Subscription}
    {replay replay' : System.ReplayMap} {cursor : Cursor}
    (h : System.replayCursor registry sub replay cursor = .ok replay') :
    (∃ stream, Replayable registry cursor stream) ∧ replay[cursor.streamId]? = none ∧
      replay' = replay.insert cursor.streamId cursor.eventSequence := by
  obtain ⟨_, -, h⟩ := bind_eq_ok h
  obtain ⟨_, -, h⟩ := bind_eq_ok h
  split at h
  · cases h
  · rename_i stream hStream
    obtain ⟨_, hIncarnation, h⟩ := bind_eq_ok h
    obtain ⟨_, hReached, h⟩ := bind_eq_ok h
    obtain ⟨_, hRetained, h⟩ := bind_eq_ok h
    obtain ⟨_, hNew, h⟩ := bind_eq_ok h
    cases h
    have hNew : replay.contains cursor.streamId = false := by simpa using require_eq_ok.mp hNew
    refine ⟨⟨stream, hStream, by simpa using require_eq_ok.mp hIncarnation,
      by simpa using require_eq_ok.mp hReached, by simpa using require_eq_ok.mp hRetained⟩, ?_, rfl⟩
    refine Std.TreeMap.getElem?_eq_none fun hMem => ?_
    rw [Std.TreeMap.contains_iff_mem.mpr hMem] at hNew
    cases hNew

/-- The replay map holds the cursor of every stream that has one, and all are replayable. -/
theorem replayCursors_eq_ok {registry : Registry} {sub : Subscription} {cursors : List Cursor}
    {replay replay' : System.ReplayMap}
    (h : cursors.foldlM (System.replayCursor registry sub) replay = .ok replay') :
    (∀ cursor ∈ cursors, ∃ stream, Replayable registry cursor stream) ∧
      ∀ id : Bytes, replay'[id]? = replay[id]?.or
        ((cursors.find? fun cursor => cursor.streamId = id).map Cursor.eventSequence) := by
  induction cursors generalizing replay with
  | nil =>
    cases h
    simp
  | cons cursor cursors ih =>
    rw [List.foldlM_cons] at h
    obtain ⟨next, hNext, h⟩ := bind_eq_ok h
    obtain ⟨hReplayable, hNew, rfl⟩ := replayCursor_eq_ok hNext
    obtain ⟨hRest, hMap⟩ := ih h
    refine ⟨List.forall_mem_cons.mpr ⟨hReplayable, hRest⟩, fun id => ?_⟩
    rw [hMap, Std.TreeMap.getElem?_insert]
    by_cases hSame : cursor.streamId = id
    · subst hSame
      simp [hNew]
    · simp [hSame]

/-- What a new mailbox is hydrated with. -/
structure Hydrated (registry : Registry) (request : SubscribeRequest) (snapshotId : Bytes)
    (replay : System.ReplayMap) (sub : Subscription) : Prop where
  cursors : ∀ cursor ∈ request.hydration.after, ∃ stream, Replayable registry cursor stream
  start : ∀ id : Bytes, replay[id]? =
    (request.hydration.after.find? fun cursor => cursor.streamId = id).map Cursor.eventSequence
  pending : sub.pending = System.hydrate registry.streams request.hydration replay
    (Subscription.create request registry.limits.subscriberBytes) snapshotId
  ids : sub.ids = request.streamIds
  kinds : sub.kinds = request.payloadKinds
  running : sub.stopped = false

theorem newMailbox_eq_ok {registry : Registry} {request : SubscribeRequest} {entropy : Entropy}
    {sub : Subscription} (h : System.newMailbox registry request entropy = .ok sub) :
    ∃ replay, Hydrated registry request (uuid entropy) replay sub := by
  obtain ⟨_, -, h⟩ := bind_eq_ok h
  obtain ⟨replay, hReplay, h⟩ := bind_eq_ok h
  obtain ⟨hCursors, hMap⟩ := replayCursors_eq_ok hReplay
  obtain ⟨hPending, hIds, hKinds, hStopped⟩ := enqueue_all h
  exact ⟨replay, hCursors, fun id => by simpa using hMap id, hPending, hIds, hKinds, hStopped⟩

/-- The cursor of a registered stream is replayable from that stream. -/
theorem Hydrated.replayable {registry : Registry} {request : SubscribeRequest} {snapshotId : Bytes}
    {replay : System.ReplayMap} {sub : Subscription} {cursor : Cursor} {id : Bytes}
    {stream : Stream} (h : Hydrated registry request snapshotId replay sub)
    (hCursor : request.hydration.after.find? (fun cursor => cursor.streamId = id) = some cursor)
    (hStream : registry.streams[id]? = some stream) : Replayable registry cursor stream := by
  obtain ⟨found, hReplayable⟩ := h.cursors cursor (List.mem_of_find?_eq_some hCursor)
  have hId : cursor.streamId = id := by simpa using List.find?_some hCursor
  have hFound := hReplayable.found
  rw [hId, hStream] at hFound
  obtain rfl := Option.some.inj hFound
  exact hReplayable

theorem flatMap_unique {α β κ : Type} {key : α → κ} {g : α → List β} {k : κ} {entries : List α}
    (hDistinct : entries.Pairwise fun a b => key a ≠ key b)
    (hOthers : ∀ a ∈ entries, key a ≠ k → g a = []) {a : α} (ha : a ∈ entries) (hKey : key a = k) :
    entries.flatMap g = g a := by
  induction entries with
  | nil => cases ha
  | cons b entries ih =>
    obtain ⟨hFirst, hRest⟩ := List.pairwise_cons.mp hDistinct
    rw [List.flatMap_cons]
    rcases List.mem_cons.mp ha with rfl | ha
    · have hNone : entries.flatMap g = [] := List.flatMap_eq_nil_iff.mpr fun c hc =>
        hOthers c (List.mem_cons_of_mem _ hc) (hKey ▸ (hFirst c hc).symm)
      rw [hNone, List.append_nil]
    · rw [hOthers b List.mem_cons_self (hKey ▸ hFirst a ha),
        ih hRest (fun c hc => hOthers c (List.mem_cons_of_mem _ hc)) ha]
      rfl

theorem flatMap_filter_of_nil {α β : Type} {p : α → Bool} {g : α → List β} {entries : List α}
    (h : ∀ a ∈ entries, p a = false → g a = []) : (entries.filter p).flatMap g = entries.flatMap g := by
  induction entries with
  | nil => rfl
  | cons a entries ih =>
    rw [List.flatMap_cons, ← ih fun b hb => h b (List.mem_cons_of_mem _ hb)]
    cases hp : p a with
    | true => rw [List.filter_cons_of_pos hp, List.flatMap_cons]
    | false =>
      rw [List.filter_cons_of_neg (by simp [hp]), h a List.mem_cons_self hp]
      rfl

/-- Of entries that matter for one id only, the map gives that id's. -/
theorem flatMap_toList {β : Type} (streams : StreamMap) (g : Bytes × Stream → List β) (id : Bytes)
    (hOthers : ∀ (key : Bytes) (stream : Stream), streams[key]? = some stream → key ≠ id →
      g (key, stream) = []) :
    streams.toList.flatMap g = streams[id]?.elim [] fun stream => g (id, stream) := by
  have hMem : ∀ entry ∈ streams.toList, streams[entry.1]? = some entry.2 := fun entry hEntry =>
    Std.TreeMap.mem_toList_iff_getElem?_eq_some.mp hEntry
  have hOthers' : ∀ entry ∈ streams.toList, entry.1 ≠ id → g entry = [] := fun entry hEntry =>
    hOthers entry.1 entry.2 (hMem entry hEntry)
  cases hFound : streams[id]? with
  | none =>
    refine List.flatMap_eq_nil_iff.mpr fun entry hEntry => hOthers' entry hEntry ?_
    rintro rfl
    rw [hMem entry hEntry] at hFound
    cases hFound
  | some stream =>
    have hDistinct : streams.toList.Pairwise fun a b => a.1 ≠ b.1 :=
      Std.TreeMap.distinct_keys_toList.imp fun hNe hEq => hNe (Std.LawfulEqCmp.compare_eq_iff_eq.mpr hEq)
    exact flatMap_unique hDistinct hOthers' (Std.TreeMap.mem_toList_iff_getElem?_eq_some.mpr hFound) rfl

section Hydration

variable {system : System} {log : List StreamEvent} {request : SubscribeRequest}
  {snapshotId : Bytes} {replay : System.ReplayMap} {sub : Subscription}

theorem Stream.Records.event_home {epoch id : Bytes} {stream : Stream}
    (h : stream.Records epoch id log) {event : StreamEvent} (hEvent : event ∈ log) :
    event.cursor.home = (id, stream.incarnation) ∧ 1 ≤ event.cursor.eventSequence ∧
      event.cursor.eventSequence ≤ stream.sequence := by
  have hMem : event.cursor ∈ log.map StreamEvent.cursor := List.mem_map_of_mem hEvent
  rw [h.cursors] at hMem
  obtain ⟨n, hn, hCursor⟩ := List.mem_map.mp hMem
  rw [List.mem_range'_1] at hn
  rw [← hCursor, h.sequence]
  exact ⟨rfl, hn.1, by simpa using Nat.lt_succ_iff.mp (by omega)⟩

/-- The hydrated events of a stream, whether selected or not: its own `accepts` check
already leaves nothing of an unselected stream. -/
def replayed (replay : System.ReplayMap) (sub : Subscription) (entry : Bytes × Stream) :
    List StreamEvent := entry.2.history.filter (System.replays replay sub entry.1)

theorem eventsIn_hydrateStream (hydration : Hydration) (entry : Bytes × Stream) :
    eventsIn (System.hydrateStream hydration replay sub entry) =
      if hydration.retainedEvents then replayed replay sub entry else [] := by
  rw [System.hydrateStream, eventsIn_append]
  have hSnapshot : eventsIn
      (if hydration.metadata then [.snapshot entry.2.snapshot] else []) = [] := by
    split <;> rfl
  rw [hSnapshot, List.nil_append]
  split
  · exact eventsIn_map_event _
  · rfl

theorem eventsIn_hydrate (streams : StreamMap) (hydration : Hydration) :
    eventsIn (System.hydrate streams hydration replay sub snapshotId) =
      if hydration.retainedEvents then
        (streams.toList.filter fun entry => sub.acceptsId entry.1).flatMap (replayed replay sub)
      else [] := by
  unfold System.hydrate
  split
  · simp only
    generalize (streams.toList.filter fun entry => sub.acceptsId entry.1) = selected
    have hEvents : eventsIn (selected.flatMap (System.hydrateStream hydration replay sub)) =
        selected.flatMap fun entry => if hydration.retainedEvents then replayed replay sub entry
          else [] := by
      rw [eventsIn, List.filterMap_flatMap]
      exact List.flatMap_congr fun entry _ => eventsIn_hydrateStream hydration entry
    rw [eventsIn_append]
    change eventsIn (selected.flatMap _) ++ [] = _
    rw [List.append_nil, hEvents]
    split
    · rfl
    · exact List.flatMap_eq_nil_iff.mpr fun _ _ => rfl
  · rename_i hNone
    have hNone : hydration.retainedEvents = false := by simp_all
    rw [hNone]
    rfl

/-- A registered stream replays only events of its own incarnation. -/
theorem replayed_home (hTracks : system.Tracks log) {id : Bytes} {stream : Stream}
    (hStream : system.registry.streams[id]? = some stream) (home : Bytes × Bytes) :
    incarnationEvents home (replayed replay sub (id, stream)) =
      if (id, stream.incarnation) = home then replayed replay sub (id, stream) else [] := by
  have hHome : ∀ event ∈ replayed replay sub (id, stream),
      event.cursor.home = (id, stream.incarnation) := fun event hEvent =>
    ((hTracks id stream hStream).event_home
      ((hTracks id stream hStream).retained.subset (List.mem_filter.mp hEvent).1)).1
  split
  · rename_i hSame
    exact List.filter_eq_self.mpr fun event hEvent => decide_eq_true ((hHome event hEvent).trans hSame)
  · rename_i hOther
    refine List.filter_eq_nil_iff.mpr fun event hEvent hEq => hOther ?_
    exact (hHome event hEvent).symm.trans (of_decide_eq_true hEq)

/-- The hydrated events of an incarnation come from the stream registered with it. -/
theorem hydrate_home (hTracks : system.Tracks log) (hydration : Hydration) (home : Bytes × Bytes) :
    incarnationEvents home
        (eventsIn (System.hydrate system.registry.streams hydration replay sub snapshotId)) =
      if hydration.retainedEvents then
        system.registry.streams[home.1]?.elim [] fun stream =>
          if stream.incarnation = home.2 then replayed replay sub (home.1, stream) else []
      else [] := by
  rw [eventsIn_hydrate]
  split
  · have hUnselected : ∀ (id : Bytes) (stream : Stream),
        system.registry.streams[id]? = some stream → sub.acceptsId id = false →
        replayed replay sub (id, stream) = [] := by
      intro id stream hStream hIgnored
      refine List.filter_eq_nil_iff.mpr fun event hEvent hReplays => ?_
      have hHome := ((hTracks id stream hStream).event_home
        ((hTracks id stream hStream).retained.subset hEvent)).1
      have hId : event.cursor.streamId = id := congrArg Prod.fst hHome
      rw [System.replays, Subscription.accepts, hId, hIgnored] at hReplays
      simp at hReplays
    rw [flatMap_filter_of_nil fun entry hEntry => hUnselected entry.1 entry.2
        (Std.TreeMap.mem_toList_iff_getElem?_eq_some.mp hEntry), incarnationEvents,
      List.filter_flatMap]
    refine (flatMap_toList system.registry.streams _ home.1 ?_).trans ?_
    · intro id stream hStream hNe
      refine (replayed_home hTracks hStream home).trans (if_neg fun hEq => hNe ?_)
      exact congrArg Prod.fst hEq
    · cases hFound : system.registry.streams[home.1]? with
      | none => rfl
      | some stream =>
        refine (replayed_home hTracks hFound home).trans (if_congr ?_ rfl rfl)
        exact Prod.ext_iff.trans (and_iff_right rfl)
  · rfl

/-- Evicted events lie below the first retained sequence, retained ones do not. -/
theorem Stream.Records.retained_split {epoch id : Bytes} {stream : Stream}
    (h : stream.Records epoch id log) :
    ∃ evicted, log = evicted ++ stream.history ∧
      (∀ event ∈ evicted,
        event.cursor.eventSequence < stream.snapshot.firstRetainedSequence) ∧
      ∀ event ∈ stream.history,
        stream.snapshot.firstRetainedSequence ≤ event.cursor.eventSequence := by
  obtain ⟨evicted, hSplit⟩ := h.retained
  have hFirst : stream.snapshot.firstRetainedSequence = evicted.length + 1 := by
    rw [h.firstRetained, ← hSplit, List.length_append]
    omega
  have hNumbers : (evicted ++ stream.history).map (fun event => event.cursor.eventSequence) =
      List.range' 1 (evicted.length + stream.history.length) := by
    have hCursors := congrArg (List.map Cursor.eventSequence) h.cursors
    rw [List.map_map, List.map_map, ← hSplit, List.length_append] at hCursors
    refine hCursors.trans ?_
    exact List.map_id _
  rw [List.map_append, ← List.range'_append_1] at hNumbers
  obtain ⟨hEvicted, hRetained⟩ := List.append_inj hNumbers (by simp)
  refine ⟨evicted, hSplit.symm, ?_, ?_⟩
  · intro event hEvent
    have hMem := List.mem_map_of_mem (f := fun event : StreamEvent => event.cursor.eventSequence) hEvent
    rw [hEvicted, List.mem_range'_1] at hMem
    omega
  · intro event hEvent
    have hMem := List.mem_map_of_mem (f := fun event : StreamEvent => event.cursor.eventSequence) hEvent
    rw [hRetained, List.mem_range'_1] at hMem
    omega

theorem IncarnationsApart.bounds (h : IncarnationsApart system log) {home : Bytes × Bytes}
    {event : StreamEvent} (hEvent : event ∈ incarnationEvents home log) :
    event.cursor.eventSequence ≤ (incarnationEvents home log).length := by
  have hMem := List.mem_map_of_mem (f := fun event : StreamEvent => event.cursor.eventSequence) hEvent
  rw [h.numbered, List.mem_range'_1] at hMem
  omega

/-- Nothing published before is at or above the next number of its incarnation. -/
theorem IncarnationsApart.none_above (h : IncarnationsApart system log) (home : Bytes × Bytes)
    (p : StreamEvent → Bool) :
    (incarnationEvents home log).filter (fun event => p event &&
      decide ((incarnationEvents home log).length + 1 ≤ event.cursor.eventSequence)) = [] := by
  refine List.filter_eq_nil_iff.mpr fun event hEvent hBoth => ?_
  have hAbove := of_decide_eq_true (Bool.and_eq_true_iff.mp hBoth).2
  have hBound := h.bounds hEvent
  omega

/-- The published events of an incarnation a request is owed. -/
def owed (system : System) (before : List StreamEvent) (request : SubscribeRequest)
    (home : Bytes × Bytes) (log : List StreamEvent) : List StreamEvent :=
  (incarnationEvents home log).filter fun event => request.accepts event &&
    decide (replayStart system before request home ≤ event.cursor.eventSequence)

/-- The registered incarnation of a stream with retained events replays what it owes. -/
theorem replayed_owed {registry : Registry} {stream : Stream} {home : Bytes × Bytes}
    (hStreams : registry.streams = system.registry.streams) (hTracks : system.Tracks log)
    (hApart : IncarnationsApart system log)
    (hHydrated : Hydrated registry request snapshotId replay sub)
    (hStream : system.registry.streams[home.1]? = some stream)
    (hCurrent : stream.incarnation = home.2 ∧ request.hydration.retainedEvents = true) :
    replayed replay (Subscription.create request registry.limits.subscriberBytes)
      (home.1, stream) = owed system log request home log := by
  have hRecords := hTracks home.1 stream hStream
  obtain ⟨evicted, hSplit, hBelow, hAbove⟩ := hRecords.retained_split
  have hLog : incarnationEvents home log = evicted ++ stream.history := by
    rw [← hSplit, ← hApart.current home.1 stream hStream, hCurrent.1]
  have hStart : stream.snapshot.firstRetainedSequence ≤ replayStart system log request home ∧
      ∀ event ∈ stream.history, System.replays replay
        (Subscription.create request registry.limits.subscriberBytes) home.1 event =
          (request.accepts event &&
            decide (replayStart system log request home ≤ event.cursor.eventSequence)) := by
    simp only [replayStart, hStream, if_pos hCurrent, System.replays, hHydrated.start home.1]
    cases hCursor : request.hydration.after.find? fun cursor => cursor.streamId = home.1 with
    | none =>
      refine ⟨Nat.le_refl _, fun event hEvent => ?_⟩
      rw [decide_eq_true (hAbove event hEvent), Bool.and_true]
      exact accepts_eq rfl rfl event
    | some cursor =>
      have hRetained := (hHydrated.replayable hCursor (hStreams ▸ hStream)).retained
      refine ⟨by simp only; omega, fun event hEvent => ?_⟩
      rw [Bool.and_comm]
      exact congrArg₂ _ (accepts_eq rfl rfl event) rfl
  rw [replayed, owed, hLog, List.filter_append]
  have hNone : evicted.filter (fun event => request.accepts event &&
      decide (replayStart system log request home ≤ event.cursor.eventSequence)) = [] := by
    refine List.filter_eq_nil_iff.mpr fun event hEvent hBoth => ?_
    have hAt := of_decide_eq_true (Bool.and_eq_true_iff.mp hBoth).2
    have hUnder := hBelow event hEvent
    omega
  rw [hNone, List.nil_append]
  exact List.filter_congr hStart.2

/-- Hydration hands over exactly the events owed of what was published before. -/
theorem hydrated_owed {registry : Registry}
    (hStreams : registry.streams = system.registry.streams) (hTracks : system.Tracks log)
    (hApart : IncarnationsApart system log)
    (hHydrated : Hydrated registry request snapshotId replay sub) (home : Bytes × Bytes) :
    incarnationEvents home (eventsIn sub.pending) = owed system log request home log := by
  rw [hHydrated.pending, hStreams, hydrate_home hTracks]
  cases hFound : system.registry.streams[home.1]? with
  | none =>
    have hStart : replayStart system log request home =
        (incarnationEvents home log).length + 1 := by
      rw [replayStart, hFound]
    rw [owed, hStart, hApart.none_above]
    split <;> rfl
  | some stream =>
    by_cases hCurrent : stream.incarnation = home.2 ∧ request.hydration.retainedEvents = true
    · rw [if_pos hCurrent.2]
      refine Eq.trans (if_pos hCurrent.1) ?_
      exact replayed_owed hStreams hTracks hApart hHydrated hFound hCurrent
    · have hStart : replayStart system log request home =
          (incarnationEvents home log).length + 1 := by
        rw [replayStart, hFound]
        exact if_neg hCurrent
      rw [owed, hStart, hApart.none_above]
      split
      · exact if_neg fun hSame => hCurrent ⟨hSame, ‹_›⟩
      · rfl

theorem replayStart_le {registry : Registry}
    (hStreams : registry.streams = system.registry.streams) (hTracks : system.Tracks log)
    (hApart : IncarnationsApart system log)
    (hHydrated : Hydrated registry request snapshotId replay sub) (home : Bytes × Bytes) :
    replayStart system log request home ≤ (incarnationEvents home log).length + 1 := by
  unfold replayStart
  split
  · rename_i stream hStream
    split
    · rename_i hCurrent
      have hRecords := hTracks home.1 stream hStream
      have hLength : (incarnationEvents home log).length = stream.sequence := by
        rw [hRecords.sequence, ← hApart.current home.1 stream hStream, hCurrent.1]
      split
      · rename_i cursor hCursor
        have hReached := (hHydrated.replayable hCursor (hStreams ▸ hStream)).reached
        omega
      · rw [hLength, hRecords.firstRetained, ← hRecords.sequence]
        omega
    · exact Nat.le_refl _
  · exact Nat.le_refl _

end Hydration

section Runs

variable (server : Server)

theorem Server.wired (operations : List Operation) : (server.state operations).Wired := by
  induction operations using List.reverseRecOn with
  | nil => exact ⟨List.nodup_nil, fun handle hMem => absurd hMem List.not_mem_nil⟩
  | append_singleton operations operation ih =>
    rw [server.state_snoc]
    exact ih.step operation

/-- Mailboxes are never discarded, and nothing is received from one that does not exist. -/
theorem step_mailboxes (native : Native) (system : System) (operation : Operation) :
    system.mailboxes.length ≤ (system.step native operation).state.mailboxes.length ∧
      ∀ handle, system.mailboxes.length ≤ handle →
        deliveredTo handle (system.step native operation).emitted = [] := by
  have hStep := step_change native system operation
  generalize system.step native operation = outcome at hStep ⊢
  cases hStep with
  | opened id hId hNew => exact ⟨Nat.le_of_eq (length_foldl_modify ..).symm, fun _ _ => rfl⟩
  | continued id now hOld hOpen hNext =>
    exact ⟨Nat.le_of_eq (length_foldl_modify ..).symm, fun _ _ => rfl⟩
  | subscribed sub hSub => exact ⟨by simp, fun _ _ => rfl⟩
  | received other sub hBox =>
    refine ⟨by simp, fun handle hBeyond => ?_⟩
    have hOther := (List.getElem?_eq_some_iff.mp hBox).1
    rw [deliveredTo, List.filterMap_map]
    exact List.filterMap_eq_nil_iff.mpr fun _ _ => if_neg (by omega)
  | cancelled other => exact ⟨by simp [System.update], fun _ _ => rfl⟩
  | released other => exact ⟨by simp [System.update], fun _ _ => rfl⟩
  | unopened | refused | unsubscribed | nothing => exact ⟨Nat.le_refl _, fun _ _ => rfl⟩

theorem Server.unreceived (operations : List Operation) {handle : Nat}
    (h : (server.state operations).mailboxes.length ≤ handle) :
    server.received handle operations = [] := by
  induction operations using List.reverseRecOn with
  | nil => rfl
  | append_singleton operations operation ih =>
    rw [server.state_snoc] at h
    obtain ⟨hGrows, hNone⟩ := step_mailboxes server.native (server.state operations) operation
    rw [server.received_snoc, ih (hGrows.trans h), hNone handle (hGrows.trans h)]
    rfl

/-- A successful subscription creates a mailbox that is fed with its hydration. -/
theorem subscribe_feeds {native : Native} {system : System} {request : SubscribeRequest}
    {entropy : Entropy} (hOk : (system.step native (.subscribe request entropy)).error = none) :
    ∃ sub replay, Hydrated { system.registry with subscribers := system.liveSubscribers } request
        (uuid entropy) replay sub ∧
      (system.step native (.subscribe request entropy)).state.Feeds request
        system.mailboxes.length [] sub.pending ⟨sub, true⟩ ∧
      (system.step native (.subscribe request entropy)).emitted = [] := by
  have hStep := step_change native system (.subscribe request entropy)
  generalize system.step native (.subscribe request entropy) = outcome at hStep hOk ⊢
  cases hStep with
  | refused operation error => cases hOk
  | unsubscribed error => cases hOk
  | continued id now hOld hOpen hNext => cases hNext
  | subscribed sub hSub =>
    obtain ⟨replay, hHydrated⟩ := newMailbox_eq_ok hSub
    refine ⟨sub, replay, hHydrated, ?_, rfl⟩
    exact ⟨by simp, hHydrated.ids, hHydrated.kinds,
      fun _ => List.mem_append_right _ (List.mem_singleton.mpr rfl), fun _ _ => rfl⟩

/-- A running listener's feed over a whole run. -/
theorem Server.feeds {before : List Operation} {request : SubscribeRequest} {entropy : Entropy}
    (hOk : ((server.state before).step server.native (.subscribe request entropy)).error = none)
    (after : List Operation) :
    ∃ sub replay live mailbox,
      Hydrated { (server.state before).registry with
        subscribers := (server.state before).liveSubscribers } request (uuid entropy) replay sub ∧
      server.log (before ++ [.subscribe request entropy] ++ after) = server.log before ++ live ∧
      (server.state (before ++ [.subscribe request entropy] ++ after)).Feeds request
        (server.state before).mailboxes.length
        (server.received (server.state before).mailboxes.length
          (before ++ [.subscribe request entropy] ++ after))
        (sub.pending ++ (live.filter request.accepts).map .event) mailbox := by
  obtain ⟨sub, replay, hHydrated, hFeeds, hEmitted⟩ := subscribe_feeds hOk
  refine ⟨sub, replay, ?_⟩
  induction after using List.reverseRecOn with
  | nil =>
    refine ⟨[], ⟨sub, true⟩, hHydrated, ?_, ?_⟩
    · rw [List.append_nil, server.log_snoc, hEmitted]
      rfl
    · rw [List.append_nil, server.state_snoc, server.received_snoc, hEmitted,
        server.unreceived before (Nat.le_refl _)]
      simpa [deliveredTo] using hFeeds
  | append_singleton after operation ih =>
    obtain ⟨live, mailbox, -, hLog, hFed⟩ := ih
    obtain ⟨mailbox', hNext⟩ := hFed.step server.native (server.wired _) operation
    obtain ⟨events, hEvents⟩ : ∃ events, publishedEvents
        ((server.state (before ++ [.subscribe request entropy] ++ after)).step server.native
          operation).emitted = events := ⟨_, rfl⟩
    rw [hEvents] at hNext
    refine ⟨live ++ events, mailbox', hHydrated, ?_, ?_⟩
    · rw [← List.append_assoc, server.log_snoc, hLog, hEvents, List.append_assoc]
    · rw [← List.append_assoc, server.state_snoc, server.received_snoc, List.filter_append,
        List.map_append, ← List.append_assoc]
      exact hNext

end Runs

theorem Stream.Records.through_eq {epoch id : Bytes} {log : List StreamEvent} {stream : Stream}
    (h : stream.Records epoch id log) :
    stream.snapshot.through.home = (id, stream.incarnation) ∧
      stream.snapshot.through.eventSequence = stream.sequence := by
  rw [h.through]
  exact ⟨rfl, h.sequence.symm⟩

/-- Hydration frames what was published before the subscription: it begins with the marks
the streams had reached, no replayed event is above its mark, and every live event is. -/
def Framed (request : SubscribeRequest) (hydration : List SubscribeResponse)
    (live : List StreamEvent) : Prop :=
  if request.hydration.metadata || request.hydration.retainedEvents then
    ∃ snapshotId marks body,
      hydration = .snapshotBegin snapshotId marks :: body ++ [.snapshotEnd snapshotId] ∧
      (∀ response ∈ body, (∃ snapshot, response = .snapshot snapshot) ∨
        ∃ event mark, response = .event event ∧ mark ∈ marks ∧
          mark.home = event.cursor.home ∧ event.cursor.eventSequence ≤ mark.eventSequence) ∧
      ∀ event ∈ live, ∀ mark ∈ marks, mark.home = event.cursor.home →
        mark.eventSequence < event.cursor.eventSequence
  else hydration = []

theorem IncarnationsApart.live_above {before live : List StreamEvent} {earlier later : System}
    (hBefore : IncarnationsApart earlier before) (h : IncarnationsApart later (before ++ live))
    {event : StreamEvent} (hEvent : event ∈ live) :
    (incarnationEvents event.cursor.home before).length < event.cursor.eventSequence := by
  have hNumbers := h.numbered event.cursor.home
  rw [incarnationEvents_append, List.map_append, hBefore.numbered, List.length_append,
    ← List.range'_append_1] at hNumbers
  have hLive := List.append_cancel_left hNumbers
  have hMem : event ∈ incarnationEvents event.cursor.home live :=
    List.mem_filter.mpr ⟨hEvent, decide_eq_true rfl⟩
  have hNumber := List.mem_map_of_mem (f := fun event : StreamEvent => event.cursor.eventSequence) hMem
  rw [hLive, List.mem_range'_1] at hNumber
  omega

theorem hydration_framed {system later : System} {registry : Registry} {log live : List StreamEvent}
    {request : SubscribeRequest} {snapshotId : Bytes} {replay : System.ReplayMap}
    {sub : Subscription} (hStreams : registry.streams = system.registry.streams)
    (hTracks : system.Tracks log) (hApart : IncarnationsApart system log)
    (hLater : IncarnationsApart later (log ++ live))
    (hHydrated : Hydrated registry request snapshotId replay sub) :
    Framed request sub.pending live := by
  rw [hHydrated.pending, hStreams, Framed, System.hydrate]
  split
  · simp only
    refine ⟨_, _, _, rfl, ?_, ?_⟩
    · intro response hResponse
      obtain ⟨entry, hEntry, hMem⟩ := List.mem_flatMap.mp hResponse
      have hFound := Std.TreeMap.mem_toList_iff_getElem?_eq_some.mp (List.mem_filter.mp hEntry).1
      have hRecords := hTracks entry.1 entry.2 hFound
      obtain ⟨hHome, hMark⟩ := hRecords.through_eq
      rcases List.mem_append.mp hMem with hSnapshot | hEvent
      · split at hSnapshot
        · exact .inl ⟨_, List.mem_singleton.mp hSnapshot⟩
        · cases hSnapshot
      · split at hEvent
        · obtain ⟨event, hReplayed, rfl⟩ := List.mem_map.mp hEvent
          have hOwn := hRecords.event_home (hRecords.retained.subset (List.mem_filter.mp hReplayed).1)
          exact .inr ⟨event, _, rfl, List.mem_map.mpr ⟨entry, hEntry, rfl⟩, hHome.trans hOwn.1.symm,
            hMark ▸ hOwn.2.2⟩
        · cases hEvent
    · intro event hEvent mark hMark hHome
      obtain ⟨entry, hEntry, rfl⟩ := List.mem_map.mp hMark
      have hFound := Std.TreeMap.mem_toList_iff_getElem?_eq_some.mp (List.mem_filter.mp hEntry).1
      have hRecords := hTracks entry.1 entry.2 hFound
      have hAbove := hApart.live_above hLater hEvent
      rw [← hHome, hRecords.through_eq.1, hApart.current entry.1 entry.2 hFound] at hAbove
      rw [hRecords.through_eq.2, hRecords.sequence]
      exact hAbove
  · rfl

theorem Framed.filter {request : SubscribeRequest} {hydration : List SubscribeResponse}
    {live : List StreamEvent} (h : Framed request hydration live) (p : StreamEvent → Bool) :
    Framed request hydration (live.filter p) := by
  unfold Framed at h ⊢
  split at h
  · rename_i hAny
    obtain ⟨snapshotId, marks, body, hShape, hBody, hLive⟩ := h
    rw [if_pos hAny]
    exact ⟨snapshotId, marks, body, hShape, hBody,
      fun event hEvent => hLive event (List.mem_of_mem_filter hEvent)⟩
  · rename_i hNone
    rw [if_neg hNone]
    exact h

/-- What a listener that subscribed in state `system`, after the log `before`, has seen. -/
structure Delivers (system : System) (before : List StreamEvent) (request : SubscribeRequest)
    (log : List StreamEvent) (seen : List SubscribeResponse) : Prop where
  exact : ∀ home, incarnationEvents home (eventsIn seen) = owed system before request home log
  increasing : ∀ home, (incarnationEvents home (eventsIn seen)).Pairwise fun a b =>
    a.cursor.eventSequence < b.cursor.eventSequence
  framed : ∃ hydration live, seen = hydration ++ live.map .event ∧ Framed request hydration live

theorem IncarnationsApart.increasing {system : System} {log : List StreamEvent}
    (h : IncarnationsApart system log) (home : Bytes × Bytes) :
    (incarnationEvents home log).Pairwise fun a b =>
      a.cursor.eventSequence < b.cursor.eventSequence := by
  have hSorted := List.pairwise_lt_range' (s := 1) (n := (incarnationEvents home log).length)
  rw [← h.numbered, List.pairwise_map] at hSorted
  exact hSorted

/-- Of what is published later, a request is owed everything it accepts. -/
theorem owed_append {system later : System} {before live : List StreamEvent}
    {request : SubscribeRequest} {home : Bytes × Bytes}
    (hBefore : IncarnationsApart system before) (hLater : IncarnationsApart later (before ++ live))
    (hStart : replayStart system before request home ≤
      (incarnationEvents home before).length + 1) :
    owed system before request home (before ++ live) =
      owed system before request home before ++
        incarnationEvents home (live.filter request.accepts) := by
  rw [owed, owed, incarnationEvents_append, List.filter_append]
  refine congrArg _ ?_
  rw [incarnationEvents, incarnationEvents, List.filter_filter, List.filter_filter]
  refine List.filter_congr fun event hEvent => ?_
  by_cases hHome : event.cursor.home = home
  · have hAbove := hBefore.live_above hLater hEvent
    rw [hHome] at hAbove
    have hOwed : replayStart system before request home ≤ event.cursor.eventSequence := by omega
    simp [hHome, hOwed]
  · simp [hHome]

/-- For every interleaving, a listener that is held and not stopped has seen of every
incarnation exactly what it is owed, once and in order, framed by its hydration marks. -/
theorem subscription_delivery (server : Server) (before after : List Operation)
    (request : SubscribeRequest) (entropy : Entropy) (mailbox : Mailbox)
    (hFresh : server.FreshIncarnations (before ++ [.subscribe request entropy] ++ after))
    (hOk : ((server.state before).step server.native (.subscribe request entropy)).error = none)
    (hBox : (server.state (before ++ [.subscribe request entropy] ++ after)).mailboxes[
      (server.state before).mailboxes.length]? = some mailbox)
    (hHeld : mailbox.held = true) (hRunning : mailbox.subscription.stopped = false) :
    Delivers (server.state before) (server.log before) request
      (server.log (before ++ [.subscribe request entropy] ++ after))
      (server.received (server.state before).mailboxes.length
        (before ++ [.subscribe request entropy] ++ after) ++ mailbox.subscription.pending) := by
  obtain ⟨sub, replay, live, found, hHydrated, hLog, hFeeds⟩ := server.feeds hOk after
  obtain rfl : found = mailbox := Option.some.inj (hFeeds.found.symm.trans hBox)
  have hLater := server.incarnations_apart _ hFresh
  have hFreshBefore : server.FreshIncarnations before := by
    rw [Server.FreshIncarnations, hLog, openings_append] at hFresh
    exact (List.nodup_append.mp hFresh).1
  have hApart := server.incarnations_apart before hFreshBefore
  have hTracks := server.tracks before
  have hStreams : Registry.streams { (server.state before).registry with
      subscribers := (server.state before).liveSubscribers } =
        (server.state before).registry.streams := rfl
  rw [hFeeds.content hHeld hRunning]
  rw [hLog] at hLater ⊢
  have hExact : ∀ home, incarnationEvents home
      (eventsIn (sub.pending ++ (live.filter request.accepts).map .event)) =
        owed (server.state before) (server.log before) request home (server.log before ++ live) := by
    intro home
    rw [eventsIn_append, eventsIn_map_event, incarnationEvents_append,
      hydrated_owed hStreams hTracks hApart hHydrated home,
      owed_append hApart hLater (replayStart_le hStreams hTracks hApart hHydrated home)]
  refine ⟨hExact, fun home => ?_, sub.pending, live.filter request.accepts, rfl, ?_⟩
  · rw [hExact]
    exact (hLater.increasing home).filter _
  · exact (hydration_framed hStreams hTracks hApart hLater hHydrated).filter _

def listenToAll : Operation := .subscribe ⟨[], ⟨true, true, []⟩, []⟩ fun _ => 9

/-- A listener hydrated with two events that then receives some and has a live one queued. -/
theorem subscription_delivery_replayed :
    ∃ mailbox, ((smallServer 4096).state
        ([openTalk 1, talkChunk 1] ++ [listenToAll] ++ [talkChunk 2, .next 0, .next 0])).mailboxes[0]? =
          some mailbox ∧
      Delivers ((smallServer 4096).state [openTalk 1, talkChunk 1])
        ((smallServer 4096).log [openTalk 1, talkChunk 1]) ⟨[], ⟨true, true, []⟩, []⟩
        ((smallServer 4096).log
          ([openTalk 1, talkChunk 1] ++ [listenToAll] ++ [talkChunk 2, .next 0, .next 0]))
        ((smallServer 4096).received 0
          ([openTalk 1, talkChunk 1] ++ [listenToAll] ++ [talkChunk 2, .next 0, .next 0]) ++
            mailbox.subscription.pending) := by
  have hAny : ((smallServer 4096).state
      ([openTalk 1, talkChunk 1] ++ [listenToAll] ++ [talkChunk 2, .next 0, .next 0])).mailboxes[0]?.any
        (fun mailbox => mailbox.held && !mailbox.subscription.stopped) = true := by decide +kernel
  obtain ⟨mailbox, hBox, hBoth⟩ := (Option.any_eq_true _ _).mp hAny
  rw [Bool.and_eq_true, Bool.not_eq_true'] at hBoth
  have hFresh : (smallServer 4096).FreshIncarnations
      ([openTalk 1, talkChunk 1] ++ [listenToAll] ++ [talkChunk 2, .next 0, .next 0]) := by
    rw [Server.FreshIncarnations]
    decide +kernel
  exact ⟨mailbox, hBox, subscription_delivery (smallServer 4096) [openTalk 1, talkChunk 1]
    [talkChunk 2, .next 0, .next 0] _ _ mailbox hFresh (by decide +kernel) hBox hBoth.1 hBoth.2⟩

end GrpcAsr.Media
