import GrpcAsr.Media.EventLog

/-!
# Stream incarnations in the published log

If no incarnation UUID is drawn twice for one stream, the events of an incarnation can
be read off the log by their cursors: they are numbered from one, and those of a
registered stream are the log of its current incarnation.
-/

namespace GrpcAsr.Media

set_option autoImplicit false

/-- The stream and the incarnation a cursor belongs to. -/
def Cursor.home (cursor : Cursor) : Bytes × Bytes := (cursor.streamId, cursor.streamIncarnation)

def incarnationEvents (home : Bytes × Bytes) (log : List StreamEvent) : List StreamEvent :=
  log.filter fun event => event.cursor.home = home

/-- The incarnations opened in the log, one for each opening event. -/
def openings (log : List StreamEvent) : List (Bytes × Bytes) :=
  (log.filter fun event => event.opened?.isSome).map fun event => event.cursor.home

@[simp] theorem incarnationEvents_append (home : Bytes × Bytes) (log log' : List StreamEvent) :
    incarnationEvents home (log ++ log') =
      incarnationEvents home log ++ incarnationEvents home log' := List.filter_append ..

theorem incarnationEvents_singleton (home : Bytes × Bytes) (event : StreamEvent) :
    incarnationEvents home [event] = if event.cursor.home = home then [event] else [] := by
  by_cases h : event.cursor.home = home <;> simp [incarnationEvents, h]

@[simp] theorem openings_append (log log' : List StreamEvent) :
    openings (log ++ log') = openings log ++ openings log' := by
  rw [openings, List.filter_append, List.map_append]
  rfl

/-- What the log says about incarnations when none is opened twice. -/
structure IncarnationsApart (system : System) (log : List StreamEvent) : Prop where
  opened : ∀ event ∈ log, event.cursor.home ∈ openings log
  numbered : ∀ home, (incarnationEvents home log).map (fun event => event.cursor.eventSequence) =
    List.range' 1 (incarnationEvents home log).length
  current : ∀ (id : Bytes) (stream : Stream), system.registry.streams[id]? = some stream →
    incarnationEvents (id, stream.incarnation) log = incarnationLog id log

variable {native : Native} {system : System} {log : List StreamEvent}

theorem numbered_snoc {home : Bytes × Bytes} {event : StreamEvent}
    (h : (incarnationEvents home log).map (fun event => event.cursor.eventSequence) =
      List.range' 1 (incarnationEvents home log).length)
    (hNumber : event.cursor.home = home →
      event.cursor.eventSequence = (incarnationEvents home log).length + 1) :
    (incarnationEvents home (log ++ [event])).map (fun event => event.cursor.eventSequence) =
      List.range' 1 (incarnationEvents home (log ++ [event])).length := by
  rw [incarnationEvents_append, incarnationEvents_singleton]
  split
  · rename_i hHome
    rw [List.map_append, h, List.length_append, List.length_singleton, List.range'_concat,
      Nat.one_mul, Nat.add_comm 1, List.map_singleton, hNumber hHome]
  · rw [List.append_nil]
    exact h

/-- A step publishes nothing, or one event that opens or continues a stream. -/
inductive Publication (before after : System) : List StreamEvent → Prop
  | none (hStreams : ∀ (id : Bytes) (stream : Stream), after.registry.streams[id]? = some stream →
      before.registry.streams[id]? = some stream) : Publication before after []
  | one (event : StreamEvent) (stream : Stream)
      (hStream : after.registry.streams[event.cursor.streamId]? = some stream)
      (hHome : event.cursor.streamIncarnation = stream.incarnation)
      (hOthers : ∀ (other : Bytes) (found : Stream), event.cursor.streamId ≠ other →
        after.registry.streams[other]? = some found → before.registry.streams[other]? = some found)
      (hNumber : event.opened?.isSome = true ∧ event.cursor.eventSequence = 1 ∨
        ∃ old, before.registry.streams[event.cursor.streamId]? = some old ∧ event.opened? = .none ∧
          stream.incarnation = old.incarnation ∧ event.cursor.eventSequence = old.sequence + 1) :
      Publication before after [event]

theorem publish_publication {base : System} {id : Bytes} {stream : Stream} {now : Timestamp}
    {draft : EventDraft}
    (hBase : ∀ (other : Bytes) (found : Stream), base.registry.streams[other]? = some found →
      system.registry.streams[other]? = some found)
    (hNumber : (stream.stamp base.registry.epoch id now draft).opened?.isSome = true ∧
        stream.sequence = 0 ∨
      ∃ old, system.registry.streams[id]? = some old ∧
        (stream.stamp base.registry.epoch id now draft).opened? = none ∧
        stream.incarnation = old.incarnation ∧ stream.sequence = old.sequence) :
    Publication system (base.publish id stream now draft).state
      (publishedEvents (base.publish id stream now draft).emitted) := by
  rw [publishedEvents_publish]
  refine .one _ _ ((publish_streams ..).trans (if_pos rfl)) rfl ?_ ?_
  · intro other found hNe hFound
    rw [publish_streams, if_neg (by exact hNe)] at hFound
    exact hBase other found hFound
  · refine hNumber.imp ?_ ?_
    · rintro ⟨hOpened, hSequence⟩
      exact ⟨hOpened, congrArg (· + 1) hSequence⟩
    · rintro ⟨old, hOld, hOpened, hIncarnation, hSequence⟩
      exact ⟨old, hOld, hOpened, hIncarnation, congrArg (· + 1) hSequence⟩

theorem step_publication (native : Native) (system : System) (operation : Operation) :
    Publication system (system.step native operation).state
      (publishedEvents (system.step native operation).emitted) := by
  have hStep := step_change native system operation
  generalize system.step native operation = outcome at hStep ⊢
  cases hStep with
  | opened id hId hNew =>
    exact publish_publication (fun _ _ hFound => reclaim_streams hFound) (.inl ⟨rfl, rfl⟩)
  | continued id now hOld hOpen hNext =>
    obtain ⟨hIncarnation, -, hSequence, -⟩ := hNext.frame
    exact publish_publication (fun _ _ hFound => hFound)
      (.inr ⟨_, hOld, stamp_opened_none hNext, hIncarnation, hSequence⟩)
  | unopened error => exact .none fun _ _ hFound => reclaim_streams hFound
  | received handle sub hBox =>
    rw [publishedEvents_delivered]
    exact .none fun _ _ hFound => hFound
  | refused | unsubscribed | subscribed | nothing | cancelled | released =>
    exact .none fun _ _ hFound => hFound

namespace IncarnationsApart

theorem quiet {after : System} (h : IncarnationsApart system log)
    (hStreams : ∀ (id : Bytes) (stream : Stream), after.registry.streams[id]? = some stream →
      system.registry.streams[id]? = some stream) : IncarnationsApart after log :=
  ⟨h.opened, h.numbered, fun id stream hFound => h.current id stream (hStreams id stream hFound)⟩

/-- Events of an incarnation that was not opened yet do not exist. -/
theorem unopened (h : IncarnationsApart system log) {home : Bytes × Bytes}
    (hNew : home ∉ openings log) : incarnationEvents home log = [] := by
  rw [incarnationEvents, List.filter_eq_nil_iff]
  intro event hEvent hHome
  exact hNew (of_decide_eq_true hHome ▸ h.opened event hEvent)

theorem snoc {after : System} {event : StreamEvent} {stream : Stream}
    (h : IncarnationsApart system log) (hHome : event.cursor.streamIncarnation = stream.incarnation)
    (hStream : after.registry.streams[event.cursor.streamId]? = some stream)
    (hOthers : ∀ (other : Bytes) (found : Stream), event.cursor.streamId ≠ other →
      after.registry.streams[other]? = some found → system.registry.streams[other]? = some found)
    (hOpened : event.cursor.home ∈ openings (log ++ [event]))
    (hNumber : event.cursor.eventSequence = (incarnationEvents event.cursor.home log).length + 1)
    (hCurrent : incarnationEvents event.cursor.home log ++ [event] =
      incarnationLog event.cursor.streamId (log ++ [event])) :
    IncarnationsApart after (log ++ [event]) := by
  refine ⟨?_, fun home => numbered_snoc (h.numbered home) ?_, ?_⟩
  · intro old hOld
    rcases List.mem_append.mp hOld with hOld | hLast
    · rw [openings_append]
      exact List.mem_append_left _ (h.opened old hOld)
    · rw [List.mem_singleton.mp hLast]
      exact hOpened
  · rintro rfl
    exact hNumber
  · intro id found hFound
    rw [incarnationEvents_append, incarnationEvents_singleton]
    by_cases hSame : event.cursor.streamId = id
    · subst hSame
      obtain rfl : stream = found := Option.some.inj (hStream.symm.trans hFound)
      rw [← hHome, ← Cursor.home, if_pos rfl]
      exact hCurrent
    · have hElsewhere : event.cursor.home ≠ (id, found.incarnation) := fun hEq =>
        hSame (congrArg Prod.fst hEq)
      rw [if_neg hElsewhere, List.append_nil, incarnationLog_snoc, if_neg hSame]
      exact h.current id found (hOthers id found hSame hFound)

theorem publish {after : System} {events : List StreamEvent} (h : IncarnationsApart system log)
    (hTracks : system.Tracks log) (hFresh : (openings (log ++ events)).Nodup)
    (hPublication : Publication system after events) : IncarnationsApart after (log ++ events) := by
  cases hPublication with
  | none hStreams =>
    rw [List.append_nil]
    exact h.quiet hStreams
  | one event stream hStream hHome hOthers hNumber =>
    rcases hNumber with ⟨hOpened, hFirst⟩ | ⟨old, hOld, hOpened, hSame, hNext⟩
    · have hOpening : openings [event] = [event.cursor.home] := by simp [openings, hOpened]
      rw [openings_append, hOpening] at hFresh
      have hNew : event.cursor.home ∉ openings log := fun hMem =>
        (List.nodup_append.mp hFresh).2.2 _ hMem _ (List.mem_singleton.mpr rfl) rfl
      have hNone := h.unopened hNew
      refine h.snoc hHome hStream hOthers ?_ ?_ ?_
      · rw [openings_append, hOpening]
        exact List.mem_append_right _ (List.mem_singleton.mpr rfl)
      · rw [hNone, hFirst]
        rfl
      · rw [hNone, incarnationLog_snoc, if_pos rfl, if_pos hOpened]
        rfl
    · have hOwn : incarnationEvents event.cursor.home log =
          incarnationLog event.cursor.streamId log := by
        rw [Cursor.home, hHome, hSame]
        exact h.current _ old hOld
      have hRecords := hTracks _ old hOld
      refine h.snoc hHome hStream hOthers ?_ ?_ ?_
      · obtain ⟨last, hLast, -⟩ := Option.map_eq_some_iff.mp hRecords.snapshot.through
        have hMem := List.mem_of_getLast? hLast
        rw [← hOwn, incarnationEvents, List.mem_filter] at hMem
        rw [openings_append, ← of_decide_eq_true hMem.2]
        exact List.mem_append_left _ (h.opened last hMem.1)
      · rw [hNext, hOwn, hRecords.sequence]
      · rw [hOwn, incarnationLog_snoc, if_pos rfl, hOpened]
        rfl

end IncarnationsApart

/-- No incarnation UUID is drawn twice for one stream. -/
def Server.FreshIncarnations (server : Server) (operations : List Operation) : Prop :=
  (openings (server.log operations)).Nodup

theorem Server.incarnations_apart (server : Server) (operations : List Operation)
    (hFresh : server.FreshIncarnations operations) :
    IncarnationsApart (server.state operations) (server.log operations) := by
  induction operations using List.reverseRecOn with
  | nil =>
    refine ⟨fun event hEvent => absurd hEvent List.not_mem_nil, fun home => rfl, ?_⟩
    intro id stream hStream
    simp [Server.start, System.initial] at hStream
  | append_singleton operations operation ih =>
    rw [Server.FreshIncarnations, server.log_snoc] at hFresh
    rw [server.state_snoc, server.log_snoc]
    have hBefore : server.FreshIncarnations operations := by
      rw [openings_append] at hFresh
      exact (List.nodup_append.mp hFresh).1
    exact (ih hBefore).publish (server.tracks operations) hFresh (step_publication ..)

end GrpcAsr.Media
