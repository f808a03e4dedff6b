import GrpcAsr.Media.EventLog

/-!
# Snapshots and transcript revisions over whole runs

In every reachable state the snapshot of a registered stream is the fold of the log of
its incarnation, and its truncation flag is set only if, at some point of that
incarnation, a result had been dropped. The revision check reads the snapshot, so it
protects a segment as long as the snapshot holds it: a dropped segment starts anew.
-/

namespace GrpcAsr.Media

set_option autoImplicit false

/-- A result of the log is missing from the snapshot. -/
def StreamSnapshot.Incomplete (snapshot : StreamSnapshot) (log : List StreamEvent) : Prop :=
  snapshot.transcripts ≠ revisions.lastOfEach (log.filterMap StreamEvent.transcript?) ∨
    snapshot.hypotheses ≠ log.filterMap StreamEvent.hypothesis?

/-- At some point of the run so far, and of the same incarnation, a result was missing. -/
def Server.HasDropped (server : Server) (operations : List Operation) (id : Bytes) : Prop :=
  ∃ earlier stream, earlier <+: operations ∧
    (server.state earlier).registry.streams[id]? = some stream ∧
    incarnationLog id (server.log earlier) <+: incarnationLog id (server.log operations) ∧
    stream.snapshot.Incomplete (incarnationLog id (server.log earlier))

variable {server : Server} {operations : List Operation} {id : Bytes}

theorem Server.HasDropped.snoc (h : server.HasDropped operations id) {operation : Operation}
    (hLog : incarnationLog id (server.log operations) <+:
      incarnationLog id (server.log (operations ++ [operation]))) :
    server.HasDropped (operations ++ [operation]) id := by
  obtain ⟨earlier, stream, hEarlier, hStream, hBefore, hMissing⟩ := h
  exact ⟨earlier, stream, hEarlier.trans (List.prefix_append _ _), hStream, hBefore.trans hLog,
    hMissing⟩

theorem truncated_has_dropped (server : Server) (operations : List Operation) (id : Bytes) :
    ∀ stream, (server.state operations).registry.streams[id]? = some stream →
      stream.snapshot.resultStateTruncated = true → server.HasDropped operations id := by
  induction operations using List.reverseRecOn with
  | nil =>
    intro stream hStream
    simp [Server.start, System.initial] at hStream
  | append_singleton operations operation ih =>
    intro stream hStream hFlag
    have hFound := hStream
    rw [server.state_snoc] at hFound
    have hFate := step_fate (server.log operations) hFound
    rw [← server.log_snoc] at hFate
    cases hFate with
    | kept hOld hLog =>
      exact (ih stream hOld hFlag).snoc (hLog ▸ List.prefix_refl _)
    | opened now hNew hEvent hLog =>
      rw [hNew] at hFlag
      cases hFlag
    | continued now hOld hOpen hNext hEvent hLog =>
      have hRecords := server.tracks operations id _ hOld
      have hTakes := hNext.takes (server.state operations).registry.epoch hRecords.producer
      rw [← hEvent] at hTakes
      rcases hRecords.snapshot.take_dropped hTakes hFlag with hBefore | hMissing
      · exact (ih _ hOld hBefore).snoc (hLog ▸ List.prefix_append _ _)
      · refine ⟨_, _, List.prefix_refl _, hStream, List.prefix_refl _, ?_⟩
        rw [hLog]
        exact hMissing

/-- The snapshot of every registered stream is the fold of the log of its incarnation. -/
theorem snapshot_folds_log (server : Server) (operations : List Operation) (id : Bytes)
    (stream : Stream) (hStream : (server.state operations).registry.streams[id]? = some stream) :
    stream.snapshot.Folds (incarnationLog id (server.log operations)) ∧
      (stream.snapshot.transcripts.map TranscriptSegment.segmentId).Nodup ∧
      (stream.snapshot.resultStateTruncated = true → server.HasDropped operations id) := by
  have hFolds := (server.tracks operations id stream hStream).snapshot
  exact ⟨hFolds, hFolds.segments_nodup, truncated_has_dropped server operations id stream hStream⟩

theorem snapshot_folds_log_revised :
    ∃ stream, ((smallServer 4096).state
        [openTalk 1, sayRevision 1 false, sayRevision 2 true]).registry.streams[talkId]? =
          some stream ∧
      stream.snapshot.Folds (incarnationLog talkId ((smallServer 4096).log
        [openTalk 1, sayRevision 1 false, sayRevision 2 true])) := by
  have hFound : ((smallServer 4096).state
      [openTalk 1, sayRevision 1 false, sayRevision 2 true]).registry.streams[talkId]?.isSome =
        true := by decide +kernel
  obtain ⟨stream, hStream⟩ := Option.isSome_iff_exists.mp hFound
  exact ⟨stream, hStream, (snapshot_folds_log _ _ _ stream hStream).1⟩

/-- The transcript events of the current incarnation of a stream. -/
def publishedTranscripts (id : Bytes) (log : List StreamEvent) : List TranscriptSegment :=
  (incarnationLog id log).filterMap StreamEvent.transcript?

/-- A transcript for a segment that was already published finds the segment in the snapshot. -/
def Operation.SegmentHeld (system : System) (log : List StreamEvent) : Operation → Prop
  | .derived id draft _ _ => ∀ (t : TranscriptSegment) (stream : Stream),
      draft.transcript? = some t → system.registry.streams[id]? = some stream →
      (∃ prior ∈ publishedTranscripts id log, prior.segmentId = t.segmentId) →
      ∃ held ∈ stream.snapshot.transcripts, held.segmentId = t.segmentId
  | _ => True

/-- Every transcript of the run finds its segment in the snapshot, if it was published. -/
def Server.KeepsSegments (server : Server) (operations : List Operation) : Prop :=
  ∀ before operation after, operations = before ++ operation :: after →
    operation.SegmentHeld (server.state before) (server.log before)

/-- Revisions of a segment are consecutive and nothing follows a final one. -/
structure FinalsImmutable (transcripts : List TranscriptSegment) : Prop where
  consecutive : ∀ segment, ∃ first,
    (transcripts.filter fun t => t.segmentId = segment).map TranscriptSegment.revision =
      List.range' first (transcripts.filter fun t => t.segmentId = segment).length
  finalsLast : transcripts.Pairwise fun t later =>
    t.final = true → later.segmentId ≠ t.segmentId

theorem finalsImmutable_of_chained {transcripts : List TranscriptSegment}
    (h : revisions.Chained transcripts) : FinalsImmutable transcripts :=
  ⟨h.consecutive, h.finals_last⟩

theorem attributeTo_transcript {producer : Producer} {libraryVersion : Bytes}
    {draft draft' : EventDraft} (h : draft.attributeTo producer libraryVersion = .ok draft') :
    draft'.transcript? = draft.transcript? := by
  unfold EventDraft.attributeTo at h
  split at h
  · cases h
    rfl
  · rename_i hypothesis hPayload
    obtain ⟨_, -, h⟩ := bind_eq_ok h
    cases h
    rw [EventDraft.transcript?, EventDraft.transcript?, hPayload]
  · cases h
    rfl

/-- A revision that passes the check continues the log, if the snapshot still holds its
segment. -/
theorem continues_of_revisionValid {log held : List TranscriptSegment} {t : TranscriptSegment}
    (hHeld : held <:+ revisions.lastOfEach log)
    (hFound : (∃ prior ∈ log, prior.segmentId = t.segmentId) →
      ∃ prior ∈ held, prior.segmentId = t.segmentId)
    (hValid : revisionValid held t = true) : revisions.Continues log t := by
  intro prior hPrior
  obtain ⟨hMem, hSame⟩ := revisions.latest_mem hPrior
  obtain ⟨kept, hKept, hKeptSame⟩ := hFound ⟨prior, hMem, hSame⟩
  have hLatest := revisions.latest_of_mem_lastOfEach (hHeld.subset hKept)
  have hEq : kept = prior := by
    have hId : revisions.id kept = revisions.id t := hKeptSame
    rw [hId, hPrior] at hLatest
    exact (Option.some.inj hLatest).symm
  have hCheck := List.all_eq_true.mp hValid kept hKept
  rw [hEq] at hCheck hKeptSame
  simp only [hKeptSame, bne_self_eq_false, Bool.false_or, Bool.and_eq_true, Bool.not_eq_true',
    beq_iff_eq] at hCheck
  exact hCheck.1

theorem derive_revisionValid {retention : Nat} {old stream : Stream} {draft draft' : EventDraft}
    {libraryVersion : Bytes} {t : TranscriptSegment}
    (h : old.derive retention draft libraryVersion = .ok (draft', stream))
    (hTranscript : draft.transcript? = some t) :
    revisionValid old.snapshot.transcripts t = true := by
  obtain ⟨snapshot, hAttributed, hChecked, -⟩ := derive_eq_ok h
  rw [EventDraft.checkTranscript, attributeTo_transcript hAttributed, hTranscript] at hChecked
  obtain ⟨_, -, hValid⟩ := bind_eq_ok hChecked
  exact require_eq_ok.mp hValid

theorem derived_continues {system : System} {log : List StreamEvent} {draft draft' : EventDraft}
    {libraryVersion : Bytes} {now : Timestamp} {old stream : Stream} {t : TranscriptSegment}
    (hRecords : old.Records system.registry.epoch id (incarnationLog id log))
    (hOld : system.registry.streams[id]? = some old)
    (hHeld : (Operation.derived id draft libraryVersion now).SegmentHeld system log)
    (hDerive : old.derive system.registry.limits.retentionBytes draft libraryVersion =
      .ok (draft', stream)) (hTranscript : draft.transcript? = some t) :
    revisions.Continues (publishedTranscripts id log) t :=
  continues_of_revisionValid hRecords.snapshot.transcripts (hHeld t old hTranscript hOld)
    (derive_revisionValid hDerive hTranscript)

/-- The transcript an operation adds to the log continues it. -/
theorem continuation_chained {system : System} {log : List StreamEvent} {operation : Operation}
    {old stream : Stream} {draft : EventDraft} {now : Timestamp}
    (hRecords : old.Records system.registry.epoch id (incarnationLog id log))
    (hOld : system.registry.streams[id]? = some old) (hHeld : operation.SegmentHeld system log)
    (hNext : Continuation system.registry.limits.retentionBytes id now old operation stream draft)
    (hChained : revisions.Chained (publishedTranscripts id log)) :
    revisions.Chained ((incarnationLog id log ++
      [stream.stamp system.registry.epoch id now draft]).filterMap StreamEvent.transcript?) := by
  have hEvent : (stream.stamp system.registry.epoch id now draft).transcript? =
      draft.transcript? := rfl
  rw [List.filterMap_append, List.filterMap_cons, hEvent, List.filterMap_nil]
  cases hTranscript : draft.transcript? with
  | none =>
    rw [List.append_nil]
    exact hChained
  | some t =>
    cases hNext with
    | source chunk => cases hTranscript
    | closed closed steadyNow => cases hTranscript
    | derived hPayload hDerive =>
      obtain ⟨-, hAttributed, -⟩ := derive_eq_ok hDerive
      rw [attributeTo_transcript hAttributed] at hTranscript
      exact revisions.chained_snoc hChained
        (derived_continues hRecords hOld hHeld hDerive hTranscript)

theorem transcripts_chained (server : Server) (operations : List Operation) (id : Bytes)
    (hKeeps : server.KeepsSegments operations) :
    ∀ stream, (server.state operations).registry.streams[id]? = some stream →
      revisions.Chained (publishedTranscripts id (server.log operations)) := by
  induction operations using List.reverseRecOn with
  | nil =>
    intro stream hStream
    simp [Server.start, System.initial] at hStream
  | append_singleton operations operation ih =>
    intro stream hStream
    have hBefore : server.KeepsSegments operations := fun before op after hSplit =>
      hKeeps before op (after ++ [operation]) (by rw [hSplit, List.append_assoc, List.cons_append])
    rw [server.state_snoc] at hStream
    have hFate := step_fate (server.log operations) hStream
    rw [← server.log_snoc] at hFate
    cases hFate with
    | kept hOld hLog =>
      rw [publishedTranscripts, hLog]
      exact ih hBefore stream hOld
    | opened now hNew hEvent hLog =>
      rw [publishedTranscripts, hLog, hEvent]
      exact revisions.chained_nil
    | continued now hOld hOpen hNext hEvent hLog =>
      rw [publishedTranscripts, hLog, hEvent]
      exact continuation_chained (server.tracks operations id _ hOld) hOld
        (hKeeps operations operation [] rfl) hNext (ih hBefore _ hOld)

/-- An operation on a derived event succeeds only through the stream's checks. -/
theorem derived_accepted {native : Native} {system : System} {draft : EventDraft}
    {libraryVersion : Bytes} {now : Timestamp}
    (h : (system.step native (.derived id draft libraryVersion now)).error = none) :
    ∃ old stream draft', system.registry.streams[id]? = some old ∧
      old.derive system.registry.limits.retentionBytes draft libraryVersion =
        .ok (draft', stream) := by
  have hStep := step_change native system (.derived id draft libraryVersion now)
  generalize system.step native (.derived id draft libraryVersion now) = outcome at hStep h
  cases hStep with
  | refused operation error => cases h
  | continued id now hOld hOpen hNext =>
    cases hNext with
    | derived hPayload hDerive => exact ⟨_, _, _, hOld, hDerive⟩

/-- A failed operation publishes and delivers nothing. -/
theorem step_failed {native : Native} {system : System} {operation : Operation}
    (h : (system.step native operation).error ≠ none) :
    (system.step native operation).emitted = [] := by
  have hStep := step_change native system operation
  generalize system.step native operation = outcome at hStep h
  cases hStep with
  | unopened | refused | unsubscribed => rfl
  | _ => exact absurd rfl h

/-- In a run that never revises a dropped segment, published finals are immutable and an
attempt to publish anything but the next revision is refused. -/
theorem final_revisions_immutable (server : Server) (operations : List Operation)
    (hKeeps : server.KeepsSegments operations) :
    (∀ (id : Bytes) (stream : Stream),
      (server.state operations).registry.streams[id]? = some stream →
      FinalsImmutable (publishedTranscripts id (server.log operations))) ∧
    ∀ before after id draft libraryVersion now t,
      operations = before ++ .derived id draft libraryVersion now :: after →
      draft.transcript? = some t →
      ¬ revisions.Continues (publishedTranscripts id (server.log before)) t →
      ((server.state before).step server.native
          (.derived id draft libraryVersion now)).error ≠ none ∧
        ((server.state before).step server.native
          (.derived id draft libraryVersion now)).emitted = [] := by
  constructor
  · intro id stream hStream
    exact finalsImmutable_of_chained (transcripts_chained server operations id hKeeps stream hStream)
  · intro before after id draft libraryVersion now t hSplit hTranscript hBreaks
    have hError : ((server.state before).step server.native
        (.derived id draft libraryVersion now)).error ≠ none := by
      intro hNone
      obtain ⟨old, stream, draft', hOld, hDerive⟩ := derived_accepted hNone
      exact hBreaks (derived_continues (server.tracks before id old hOld) hOld
        (hKeeps before _ after hSplit) hDerive hTranscript)
    exact ⟨hError, step_failed hError⟩

/-- With room for the result, the second attempt at a final segment is refused. -/
theorem final_revisions_immutable_retried :
    (smallServer 4096).KeepsSegments [openTalk 1, sayRevision 1 true, sayRevision 1 true] ∧
      FinalsImmutable (publishedTranscripts talkId
        ((smallServer 4096).log [openTalk 1, sayRevision 1 true, sayRevision 1 true])) := by
  have hKeeps :
      (smallServer 4096).KeepsSegments [openTalk 1, sayRevision 1 true, sayRevision 1 true] := by
    intro before operation after hSplit
    match before, hSplit with
    | [], hSplit =>
      cases hSplit
      trivial
    | [_], hSplit =>
      cases hSplit
      rintro t stream - - ⟨prior, hPrior, -⟩
      have hNone : publishedTranscripts talkId ((smallServer 4096).log [openTalk 1]) = [] := by
        decide +kernel
      rw [hNone] at hPrior
      cases hPrior
    | [_, _], hSplit =>
      cases hSplit
      intro t stream hTranscript hStream _
      cases hTranscript
      have hHeld : ((smallServer 4096).state
          [openTalk 1, sayRevision 1 true]).registry.streams[talkId]?.map
            (fun stream => stream.snapshot.transcripts.map TranscriptSegment.segmentId) =
              some [talkId] := by decide +kernel
      rw [hStream, Option.map_some, Option.some.injEq] at hHeld
      exact List.mem_map.mp (hHeld ▸ List.mem_singleton.mpr rfl)
    | _ :: _ :: _ :: before, hSplit => simp at hSplit
  have hFound : ((smallServer 4096).state
      [openTalk 1, sayRevision 1 true, sayRevision 1 true]).registry.streams[talkId]?.isSome =
        true := by decide +kernel
  obtain ⟨stream, hStream⟩ := Option.isSome_iff_exists.mp hFound
  exact ⟨hKeeps, (final_revisions_immutable _ _ hKeeps).1 talkId stream hStream⟩

/-- With a budget no result fits in, a final revision is published twice. -/
theorem final_revision_published_again :
    ((smallServer 1).state
        [openTalk 1, sayRevision 1 true, sayRevision 1 true]).registry.streams[talkId]?.isSome =
      true ∧
    ¬ FinalsImmutable (publishedTranscripts talkId
      ((smallServer 1).log [openTalk 1, sayRevision 1 true, sayRevision 1 true])) := by
  refine ⟨by decide +kernel, fun h => ?_⟩
  exact absurd h.finalsLast (by decide +kernel)
end GrpcAsr.Media
