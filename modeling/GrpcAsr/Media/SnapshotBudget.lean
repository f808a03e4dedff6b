import Mathlib.Data.Nat.Log
import GrpcAsr.Media.Lifecycle
import GrpcAsr.Media.RetainedHistory
import GrpcAsr.Media.SnapshotTrimming

/-!
# The byte budget of a snapshot

`derived` trims the results of a snapshot to the retention budget, and publication then
writes two numbers into it; closing a stream adds its terminal record with no trimming at
all. What comes on top can be read off the stream before the operation. So the budget holds
along a run exactly while no snapshot the trimming may leave lies so close below the budget
that the additions do not fit.
-/

namespace GrpcAsr.Media

set_option autoImplicit false

open Emitting Retention

/-- The bytes of the two numbers publication writes. -/
def StreamSnapshot.marks (snapshot : StreamSnapshot) : Nat :=
  Wire.delimited 1 snapshot.through.byteSize + Wire.uint 2 snapshot.firstRetainedSequence

namespace Stream

/-- The bytes of the two numbers once the next event is published and so many events stay. -/
def nextMarks (epoch id : Bytes) (old : Stream) (retained : Nat) : Nat :=
  Wire.delimited 1 (Cursor.byteSize ⟨epoch, id, old.sequence + 1, old.incarnation⟩) +
    Wire.uint 2 (old.sequence + 2 - retained)

/-- By how much publication lengthens the two numbers. -/
def lengthening (epoch id : Bytes) (old : Stream) (retained : Nat) : Nat :=
  old.nextMarks epoch id retained - old.snapshot.marks

end Stream

/-- A snapshot that the trimming of an operation on an open stream may leave, and the bytes that
come on top of it. Of the history, publication keeps the longest end that the budget affords
beside the new event. -/
inductive Adds (retention : Nat) (epoch id : Bytes) (now : Timestamp) (old : Stream) :
    Operation → StreamSnapshot → Nat → Prop
  | source (chunk : SourceChunk) (kept : List StreamEvent)
      (hKept : Longest StreamEvent.charge retention
        (old.history ++ [old.stamp epoch id now (.of (.source chunk))]) kept) :
      Adds retention epoch id now old (.source id chunk now) old.snapshot
        (old.lengthening epoch id kept.length)
  | closed (closed : StreamClosed) (steadyNow : Int) (kept : List StreamEvent)
      (hKept : Longest StreamEvent.charge retention
        (old.history ++ [old.stamp epoch id now (.of (.closed closed))]) kept) :
      Adds retention epoch id now old (.close id closed now steadyNow) old.snapshot
        (Wire.delimited 4 closed.byteSize + old.lengthening epoch id kept.length)
  | derived {draft draft' : EventDraft} {libraryVersion : Bytes} {h t : Nat}
      (hPayload : draft.payload.any Payload.isDerived = true)
      (hSize : draft.byteSize ≤ 512 * 1024)
      (hAttributed : draft.attributeTo old.producer libraryVersion = .ok draft')
      (hChecked : draft'.checkTranscript old.snapshot.transcripts = .ok ())
      (hRoom : draft'.effectiveProducer ∈ old.snapshot.producers ∨
        old.snapshot.producers.length < 16)
      (hQuota : StreamSnapshot.Quota h t) (kept : List StreamEvent)
      (hKept : Longest StreamEvent.charge retention
        (old.history ++ [old.stamp epoch id now draft']) kept) :
      Adds retention epoch id now old (.derived id draft libraryVersion now)
        ((old.snapshot.offered draft'.effectiveProducer (old.stamp epoch id now draft')).newest h t)
        (old.lengthening epoch id kept.length)

namespace System

/-- The snapshot of every stream fits the budget or holds no result. -/
def WithinBudget (system : System) : Prop :=
  ∀ (id : Bytes) (stream : Stream), system.registry.streams[id]? = some stream →
    stream.snapshot.byteSize ≤ system.registry.limits.retentionBytes ∨ stream.snapshot.Bare

/-- A snapshot that fits the budget, and that the operation may leave, still fits with what the
operation adds. -/
def Headroom (system : System) (operation : Operation) : Prop :=
  ∀ (id : Bytes) (now : Timestamp) (old : Stream) (kept : StreamSnapshot) (added : Nat),
    system.registry.streams[id]? = some old → old.closed = false →
    Adds system.registry.limits.retentionBytes system.registry.epoch id now old operation
      kept added →
    kept.byteSize ≤ system.registry.limits.retentionBytes →
    kept.byteSize + added ≤ system.registry.limits.retentionBytes ∨ kept.Bare

end System

section Sizes

theorem varint_mono {m n : Nat} (h : m ≤ n) : Wire.varint m ≤ Wire.varint n := by
  have hLog : Nat.log2 m ≤ Nat.log2 n := by
    rw [Nat.log2_eq_log_two, Nat.log2_eq_log_two]
    exact Nat.log_mono_right h
  unfold Wire.varint
  omega

theorem uint_mono (field : Nat) {m n : Nat} (h : m ≤ n) : Wire.uint field m ≤ Wire.uint field n := by
  have hVarint := varint_mono h
  unfold Wire.uint
  split
  · exact Nat.zero_le _
  · rw [if_neg (by omega)]
    omega

theorem delimited_mono (field : Nat) {m n : Nat} (h : m ≤ n) :
    Wire.delimited field m ≤ Wire.delimited field n := by
  have hVarint := varint_mono h
  unfold Wire.delimited
  omega

theorem marks_mono {old new : StreamSnapshot}
    (hThrough : old.through = { new.through with eventSequence := old.through.eventSequence })
    (hNumber : old.through.eventSequence ≤ new.through.eventSequence)
    (hFirst : old.firstRetainedSequence ≤ new.firstRetainedSequence) : old.marks ≤ new.marks := by
  have hSequence := uint_mono 3 hNumber
  have hRetained := uint_mono 2 hFirst
  have hCursor : old.through.byteSize ≤ new.through.byteSize := by
    rw [hThrough]
    simp only [Cursor.byteSize]
    omega
  have hWrapped := delimited_mono 1 hCursor
  unfold StreamSnapshot.marks
  omega

end Sizes

section Continuations

variable {retention : Nat} {epoch id : Bytes} {log : List StreamEvent} {old stream : Stream}
  {draft : EventDraft} {now : Timestamp} {operation : Operation}

theorem addProducer_marks {snapshot added : StreamSnapshot} {producer : Producer}
    (h : snapshot.addProducer producer = .ok added) : added.through = snapshot.through ∧
      added.firstRetainedSequence = snapshot.firstRetainedSequence := by
  unfold StreamSnapshot.addProducer at h
  split at h
  · cases h
    exact ⟨rfl, rfl⟩
  · obtain ⟨_, -, h⟩ := bind_eq_ok h
    cases h
    exact ⟨rfl, rfl⟩

theorem absorb_marks (snapshot : StreamSnapshot) (payload : Option Payload) :
    (snapshot.absorb payload).through = snapshot.through ∧
      (snapshot.absorb payload).firstRetainedSequence = snapshot.firstRetainedSequence := by
  unfold StreamSnapshot.absorb
  split <;> exact ⟨rfl, rfl⟩

/-- Only publication writes the numbers of a snapshot. -/
theorem Continuation.marks_frame
    (h : Continuation retention id now old operation stream draft) :
    stream.snapshot.through = old.snapshot.through ∧
      stream.snapshot.firstRetainedSequence = old.snapshot.firstRetainedSequence := by
  cases h with
  | source chunk => exact ⟨rfl, rfl⟩
  | closed closed steadyNow => exact ⟨rfl, rfl⟩
  | derived hPayload hDerive =>
    obtain ⟨snapshot, -, -, hAdded, rfl⟩ := derive_eq_ok hDerive
    obtain ⟨hThrough, hFirst⟩ := addProducer_marks hAdded
    obtain ⟨hAbsorbed, hAbsorbedFirst⟩ := absorb_marks snapshot draft.payload
    have hFrame := (StreamSnapshot.bounded_trims retention (snapshot.absorb draft.payload)).frame
    simp only
    rw [hFrame]
    exact ⟨hAbsorbed.trans hThrough, hAbsorbedFirst.trans hFirst⟩

theorem Continuation.marks_le (h : Continuation retention id now old operation stream draft)
    (hRecords : old.Records epoch id log) :
    stream.snapshot.marks ≤
      (stream.record retention (stream.stamp epoch id now draft)).snapshot.marks := by
  obtain ⟨hThrough, hFirst⟩ := h.marks_frame
  obtain ⟨hIncarnation, -, hSequence, hHistory, -⟩ := h.frame
  have hNext := hRecords.continue h
  have hKept := (retain_suffix retention stream (stream.stamp epoch id now draft)).length_le
  rw [hHistory] at hKept
  simp only [List.length_append, List.length_singleton] at hKept
  apply marks_mono
  · rw [hThrough, hRecords.through, hNext.through]
    simp only [Stream.record, hIncarnation]
  · rw [hThrough, hRecords.through, hNext.through]
    simp only [List.length_append]
    omega
  · rw [hFirst, hRecords.firstRetained, hNext.firstRetained]
    simp only [List.length_append, List.length_singleton]
    change _ ≤ log.length + 1 - (stream.retain retention (stream.stamp epoch id now draft)).1.length + 1
    omega

theorem Continuation.stamp_eq (h : Continuation retention id now old operation stream draft)
    (epoch : Bytes) : stream.stamp epoch id now draft = old.stamp epoch id now draft := by
  obtain ⟨hIncarnation, hProducer, hSequence, -, -⟩ := h.frame
  rw [Stream.stamp, Stream.stamp, hIncarnation, hProducer, hSequence]

/-- Publication keeps the longest end of the old history that fits beside the event. -/
theorem Continuation.record_longest (h : Continuation retention id now old operation stream draft)
    (hRetains : old.Retains retention log) (event : StreamEvent) :
    Longest StreamEvent.charge retention (old.history ++ [event])
      (stream.record retention event).history := by
  obtain ⟨-, -, -, hHistory, hBytes⟩ := h.frame
  have hSelf : stream.Retains retention old.history := by
    constructor
    · rw [hHistory]
      exact .whole hRetains.longest.affordable
    · rw [hHistory, hBytes]
      exact hRetains.bytes
  exact (hSelf.record event).longest

theorem Continuation.record_marks (h : Continuation retention id now old operation stream draft)
    (hRecords : old.Records epoch id log) (hRetains : old.Retains retention log)
    {kept : List StreamEvent}
    (hKept : Longest StreamEvent.charge retention
      (old.history ++ [old.stamp epoch id now draft]) kept) :
    (stream.record retention (stream.stamp epoch id now draft)).snapshot.marks =
      old.nextMarks epoch id kept.length := by
  obtain ⟨hIncarnation, -⟩ := h.frame
  have hNext := hRecords.continue h
  rw [← h.stamp_eq epoch] at hKept
  have hHistory := hKept.unique (h.record_longest hRetains _)
  have hLength := hKept.suffix.length_le
  have hLog := hRecords.retained.length_le
  have hSequence := hRecords.sequence
  rw [List.length_append, List.length_singleton] at hLength
  have hFirst : log.length + 1 - kept.length + 1 = old.sequence + 2 - kept.length := by omega
  unfold StreamSnapshot.marks Stream.nextMarks
  rw [hNext.through, hNext.firstRetained, ← hHistory, List.length_append, List.length_singleton,
    hFirst, hSequence]
  simp only [Stream.record, hIncarnation]

/-- Publication changes a snapshot by its two numbers alone. -/
theorem Continuation.record_byteSize (h : Continuation retention id now old operation stream draft)
    (hRecords : old.Records epoch id log) (hRetains : old.Retains retention log)
    {kept : List StreamEvent}
    (hKept : Longest StreamEvent.charge retention
      (old.history ++ [old.stamp epoch id now draft]) kept) :
    (stream.record retention (stream.stamp epoch id now draft)).snapshot.byteSize =
      stream.snapshot.byteSize + old.lengthening epoch id kept.length := by
  have hMarks := h.record_marks hRecords hRetains hKept
  have hLonger := h.marks_le hRecords
  obtain ⟨hThrough, hFirst⟩ := h.marks_frame
  have hBefore : stream.snapshot.marks = old.snapshot.marks := by
    rw [StreamSnapshot.marks, StreamSnapshot.marks, hThrough, hFirst]
  rw [Stream.lengthening, ← hMarks, ← hBefore]
  unfold StreamSnapshot.marks at hLonger ⊢
  unfold StreamSnapshot.byteSize
  simp only [Stream.record] at hLonger ⊢
  omega

theorem closed_byteSize {snapshot : StreamSnapshot} (h : snapshot.closed = none)
    (closed : StreamClosed) : ({ snapshot with closed := some closed } : StreamSnapshot).byteSize =
      snapshot.byteSize + Wire.delimited 4 closed.byteSize := by
  simp only [StreamSnapshot.byteSize, h, Wire.optional]
  omega

/-- What an operation leaves of a snapshot within the budget is a snapshot within the budget, and
with what comes on top it is the published one. -/
theorem Continuation.adds (h : Continuation retention id now old operation stream draft)
    (hRecords : old.Records epoch id log) (hRetains : old.Retains retention log)
    (hUnclosed : old.snapshot.closed = none)
    (hBefore : old.snapshot.byteSize ≤ retention ∨ old.snapshot.Bare)
    (hSize : ∀ target draft libraryVersion now, operation = .derived target draft libraryVersion now →
      draft.byteSize ≤ 512 * 1024) :
    ∃ kept added, Adds retention epoch id now old operation kept added ∧
      (kept.byteSize ≤ retention ∨ kept.Bare) ∧
      (stream.record retention (stream.stamp epoch id now draft)).snapshot.byteSize =
        kept.byteSize + added ∧
      (kept.Bare → (stream.record retention (stream.stamp epoch id now draft)).snapshot.Bare) := by
  have hKept := h.record_longest hRetains (old.stamp epoch id now draft)
  have hPublished := h.record_byteSize hRecords hRetains hKept
  cases h with
  | source chunk => exact ⟨_, _, .source chunk _ hKept, hBefore, hPublished, fun hBare => hBare⟩
  | closed closed steadyNow =>
    refine ⟨_, _, .closed closed steadyNow _ hKept, hBefore, ?_, fun hBare => hBare⟩
    rw [hPublished, closed_byteSize hUnclosed, Nat.add_assoc]
  | derived hPayload hDerive =>
    obtain ⟨hAttributed, hChecked, hRoom, rfl⟩ :=
      (@derive_iff _ _ _ _ _ _ epoch id now hPayload).mp hDerive
    obtain ⟨h, t, hQuota, hBounded⟩ := StreamSnapshot.bounded_quota retention
      (old.snapshot.offered draft.effectiveProducer (old.stamp epoch id now draft))
    have hDone := StreamSnapshot.bounded_done retention
      (old.snapshot.offered draft.effectiveProducer (old.stamp epoch id now draft))
    simp only [hBounded] at hDone hPublished ⊢
    exact ⟨_, _, .derived hPayload (hSize _ _ _ _ rfl) hAttributed hChecked hRoom hQuota _ hKept,
      hDone, hPublished, fun hBare => hBare⟩

end Continuations

section Steps

variable {native : Native} {system : System} {log : List StreamEvent} {operation : Operation}
  {id : Bytes} {now : Timestamp} {old : Stream}

/-- An operation that adds to a snapshot does publish it. -/
theorem Adds.published {kept : StreamSnapshot} {added : Nat}
    (hAdds : Adds system.registry.limits.retentionBytes system.registry.epoch id now old operation
      kept added)
    (hOld : system.registry.streams[id]? = some old) (hOpen : old.closed = false)
    (hRecords : old.Records system.registry.epoch id log)
    (hRetains : old.Retains system.registry.limits.retentionBytes log)
    (hUnclosed : old.snapshot.closed = none)
    (hFits : kept.byteSize ≤ system.registry.limits.retentionBytes) :
    ∃ stream draft, system.step native operation = system.publish id stream now draft ∧
      kept.byteSize + added ≤
        (stream.record system.registry.limits.retentionBytes
          (stream.stamp system.registry.epoch id now draft)).snapshot.byteSize ∧
      ((stream.record system.registry.limits.retentionBytes
          (stream.stamp system.registry.epoch id now draft)).snapshot.Bare → kept.Bare) := by
  cases hAdds with
  | source chunk kept hKept =>
    have hNext : Continuation system.registry.limits.retentionBytes id now old
        (.source id chunk now) old (.of (.source chunk)) := .source chunk
    refine ⟨old, _, ?_, Nat.le_of_eq (hNext.record_byteSize hRecords hRetains hKept).symm,
      fun hBare => hBare⟩
    rw [System.step, System.source, openStreamAt_open _ hOld hOpen]
  | closed closed steadyNow kept hKept =>
    have hNext : Continuation system.registry.limits.retentionBytes id now old
        (.close id closed now steadyNow) _ (.of (.closed closed)) := .closed closed steadyNow
    refine ⟨{ old with
      closed := true
      closedAt := steadyNow
      snapshot := { old.snapshot with closed := some closed } }, .of (.closed closed), ?_, ?_,
      fun hBare => hBare⟩
    · rw [System.step, System.close, openStreamAt_open _ hOld hOpen]
    · rw [hNext.record_byteSize hRecords hRetains hKept, closed_byteSize hUnclosed, Nat.add_assoc]
  | @derived draft draft' libraryVersion h t hPayload hSize hAttributed hChecked hRoom hQuota kept
      hKept =>
    obtain ⟨stream, hStream⟩ : ∃ stream, stream = { old with
        snapshot := (old.snapshot.offered draft'.effectiveProducer
          (old.stamp system.registry.epoch id now draft')).bounded
            system.registry.limits.retentionBytes } := ⟨_, rfl⟩
    have hSnapshot : stream.snapshot =
        (old.snapshot.offered draft'.effectiveProducer
          (old.stamp system.registry.epoch id now draft')).bounded
            system.registry.limits.retentionBytes := congrArg Stream.snapshot hStream
    have hDerive := (derive_iff hPayload).mpr ⟨hAttributed, hChecked, hRoom, hStream⟩
    have hNext : Continuation system.registry.limits.retentionBytes id now old
        (.derived id draft libraryVersion now) stream draft' := .derived hPayload hDerive
    obtain ⟨hLarger, hNone⟩ := StreamSnapshot.newest_le_bounded hQuota hFits
    rw [← hSnapshot] at hLarger hNone
    refine ⟨stream, draft', ?_, ?_, hNone⟩
    · have hAccepted : (do
          require (draft.payload.any Payload.isDerived) .invalidArgument "unsupported derived payload"
          require (decide (draft.byteSize ≤ 512 * 1024)) .resourceExhausted
            "derived event exceeds limit"
          let stream ← system.openStreamAt id "stream is closed"
          stream.derive system.registry.limits.retentionBytes draft libraryVersion :
            Except Failure (EventDraft × Stream)) = .ok (draft', stream) := by
        rw [hPayload, decide_eq_true hSize, require_true, require_true,
          openStreamAt_open _ hOld hOpen]
        exact hDerive
      rw [System.step, System.derived]
      simp only [hAccepted]
    · rw [hNext.record_byteSize hRecords hRetains hKept]
      exact Nat.add_le_add_right hLarger _

/-- A derived event over the limit is refused. -/
theorem derived_size {draft : EventDraft} {libraryVersion : Bytes}
    (h : publishedEvents (system.step native (.derived id draft libraryVersion now)).emitted ≠ []) :
    draft.byteSize ≤ 512 * 1024 := by
  by_contra hOver
  apply h
  rw [System.step, System.derived]
  cases hPayload : draft.payload.any Payload.isDerived with
  | false => rfl
  | true =>
    simp only [require_true]
    rw [decide_eq_false hOver]
    rfl

theorem publish_self (system : System) (id : Bytes) (stream : Stream) (now : Timestamp)
    (draft : EventDraft) :
    (system.publish id stream now draft).state.registry.streams[id]? =
      some (stream.record system.registry.limits.retentionBytes
        (stream.stamp system.registry.epoch id now draft)) := by
  rw [publish_streams, if_pos rfl]

/-- What is known of the open streams of a reachable state. -/
structure System.OpenRecords (system : System) (log : List StreamEvent) : Prop where
  tracks : system.Tracks log
  retains : system.Retains log
  unclosed : ∀ (id : Bytes) (stream : Stream), system.registry.streams[id]? = some stream →
    stream.closed = false → stream.snapshot.closed = none

/-- After a step the budget holds exactly if what the step may leave has room for what it adds. -/
theorem System.OpenRecords.budget_step (h : system.OpenRecords log) (hWithin : system.WithinBudget)
    (operation : Operation) :
    (system.step native operation).state.WithinBudget ↔ system.Headroom operation := by
  have hLimits := (@step_settings native system operation).1
  constructor
  · intro hNext id now old kept added hOld hOpen hAdds hFits
    obtain ⟨stream, draft, hStep, hSize, hBare⟩ := @Adds.published native _ _ _ _ _ _ _ _ hAdds hOld
      hOpen (h.tracks id old hOld) (h.retains id old hOld) (h.unclosed id old hOld hOpen) hFits
    have hFound := hNext id _ (by rw [hStep]; exact publish_self system id stream now draft)
    rw [hLimits] at hFound
    exact hFound.imp (fun hRoom => Nat.le_trans hSize hRoom) hBare
  · intro hRoom id stream hFound
    rw [hLimits]
    cases step_fate log hFound with
    | kept hStream hLog => exact hWithin id stream hStream
    | @opened next request incarnation event now hStream hEvent hLog =>
      refine Or.inr ?_
      rw [hStream]
      exact ⟨rfl, rfl⟩
    | @continued old next draft event now hOld hOpen hNext hEvent hLog =>
      have hSize : ∀ target draft libraryVersion now,
          operation = .derived target draft libraryVersion now → draft.byteSize ≤ 512 * 1024 := by
        rintro target draft libraryVersion now rfl
        apply derived_size
        intro hNone
        rw [hNone, List.append_nil] at hLog
        have hLength := congrArg List.length hLog
        simp only [List.length_append, List.length_singleton] at hLength
        omega
      obtain ⟨kept, added, hAdds, hKept, hPublished, hBare⟩ := hNext.adds (h.tracks id old hOld)
        (h.retains id old hOld) (h.unclosed id old hOld hOpen) (hWithin id old hOld) hSize
      rw [hEvent, hPublished]
      rcases hKept with hFits | hNone
      · exact (hRoom id now old kept added hOld hOpen hAdds hFits).imp_right hBare
      · exact .inr (hBare hNone)

end Steps

theorem Server.openRecords (server : Server) (operations : List Operation) :
    (server.state operations).OpenRecords (server.log operations) := by
  refine ⟨server.tracks operations, server.retains operations, ?_⟩
  intro id stream hStream hOpen
  have hUnclosed := (server.closed_iff operations id stream hStream).mp hOpen
  rw [(server.tracks operations id stream hStream).snapshot.closed,
    List.filterMap_eq_nil_iff.mpr hUnclosed]
  rfl

/-- The snapshots of a run stay within the budget exactly if everything its operations add
after the trimming fits. -/
theorem snapshot_budget_iff (server : Server) (operations : List Operation) :
    (∀ before, before <+: operations → (server.state before).WithinBudget) ↔
      ∀ before operation later, operations = before ++ operation :: later →
        (server.state before).Headroom operation := by
  constructor
  · rintro hAll before operation later rfl
    have hBefore := hAll before (List.prefix_append _ _)
    have hAfter := hAll (before ++ [operation]) ⟨later, by simp⟩
    rw [server.state_snoc] at hAfter
    exact ((server.openRecords before).budget_step hBefore operation).mp hAfter
  · intro hRoom before
    induction before using List.reverseRecOn with
    | nil =>
      intro _ id stream hStream
      simp [Server.start, System.initial] at hStream
    | append_singleton before operation ih =>
      rintro ⟨later, rfl⟩
      have hBefore := ih ⟨operation :: later, by simp⟩
      rw [server.state_snoc]
      exact ((server.openRecords before).budget_step hBefore operation).mpr
        (hRoom before operation later (by simp))

def closeTalk : Operation := .close talkId ⟨0, "", 0, 0, List.replicate 32 1⟩ ⟨0, 0⟩ 0

/-- A transcript that fills the budget exactly, and the close of its stream. -/
theorem close_exceeds_budget :
    ¬∀ (server : Server) (operations : List Operation),
      (server.state operations).WithinBudget := by
  intro hAll
  have hWithin := hAll (smallServer 368) [openTalk 1, sayRevision 1 false, closeTalk]
  have hSizes : (((smallServer 368).state
      [openTalk 1, sayRevision 1 false, closeTalk]).registry.streams[talkId]?).map
        (fun stream => (stream.snapshot.byteSize, stream.snapshot.transcripts.length)) =
      some (404, 1) := by decide +kernel
  obtain ⟨stream, hStream, hPair⟩ := Option.map_eq_some_iff.mp hSizes
  obtain ⟨hSize, hTranscripts⟩ := Prod.mk.inj hPair
  rcases hWithin talkId stream hStream with hFits | ⟨-, hNone⟩
  · rw [hSize] at hFits
    exact absurd hFits (by decide)
  · rw [hNone] at hTranscripts
    cases hTranscripts

end GrpcAsr.Media
