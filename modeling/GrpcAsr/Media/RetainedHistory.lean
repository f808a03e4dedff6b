import GrpcAsr.Library.Retention
import GrpcAsr.Media.EventLog

/-!
# Retained history is the longest affordable end of the log

Publication evicts from the front of a stream's history before it appends. The byte counter
follows, so after every operation the history is exactly what the budget can keep.
-/

namespace GrpcAsr.Media

set_option autoImplicit false

open Retention

namespace Stream

/-- No subtraction of the eviction loop goes below zero. -/
def EvictSafe (retention size : Nat) : List StreamEvent → Nat → Prop
  | [], _ => True
  | event :: history, bytes =>
    retention < size ∨ retention - size < bytes →
      event.charge ≤ bytes ∧ EvictSafe retention size history (bytes - event.charge)

/-- The stream keeps what the budget affords of its log. -/
structure Retains (retention : Nat) (log : List StreamEvent) (stream : Stream) : Prop where
  longest : Longest StreamEvent.charge retention log stream.history
  bytes : stream.historyBytes = total StreamEvent.charge stream.history

theorem evictSafe_total (retention size : Nat) (history : List StreamEvent) :
    EvictSafe retention size history (total StreamEvent.charge history) := by
  induction history with
  | nil => trivial
  | cons event history ih =>
    intro _
    rw [total_cons]
    refine ⟨Nat.le_add_right _ _, ?_⟩
    rw [Nat.add_sub_cancel_left]
    exact ih

theorem evict_total (retention size : Nat) (history : List StreamEvent) :
    (evict retention size history (total StreamEvent.charge history)).2 =
      total StreamEvent.charge
        (evict retention size history (total StreamEvent.charge history)).1 := by
  induction history with
  | nil => rfl
  | cons event history ih =>
    rw [evict]
    split
    · rw [total_cons, Nat.add_sub_cancel_left]
      exact ih
    · rfl

/-- An event that fits evicts as little as it needs. -/
theorem evict_longest {retention size : Nat} (h : size ≤ retention) (history : List StreamEvent) :
    Longest StreamEvent.charge (retention - size) history
      (evict retention size history (total StreamEvent.charge history)).1 := by
  induction history with
  | nil => exact .whole (Nat.zero_le _)
  | cons event history ih =>
    rw [evict]
    split
    · rename_i hOver
      rw [total_cons, Nat.add_sub_cancel_left]
      apply ih.drop
      omega
    · rename_i hFits
      exact .whole (by omega)

theorem Retains.record {retention : Nat} {log : List StreamEvent} {stream : Stream}
    (h : stream.Retains retention log) (event : StreamEvent) :
    (stream.record retention event).Retains retention (log ++ [event]) := by
  have hTotal := evict_total retention event.charge stream.history
  rw [← h.bytes] at hTotal
  have hKept : (stream.record retention event).history = (stream.retain retention event).1 ∧
      (stream.record retention event).historyBytes = (stream.retain retention event).2 :=
    ⟨rfl, rfl⟩
  constructor
  · rw [hKept.1, retain]
    by_cases hFits : event.charge ≤ retention
    · rw [if_pos hFits]
      apply h.longest.snoc hFits
      rw [h.bytes]
      exact evict_longest hFits stream.history
    · rw [if_neg hFits, evict_oversized (by omega)]
      exact .oversized (by omega) log
  · rw [hKept.1, hKept.2, retain]
    by_cases hFits : event.charge ≤ retention
    · rw [if_pos hFits, total_append, total_cons, total_nil, hTotal]
      rfl
    · rw [if_neg hFits]
      exact hTotal

end Stream

/-- Every registered stream keeps what the budget affords of its current incarnation. -/
def System.Retains (system : System) (log : List StreamEvent) : Prop :=
  ∀ (id : Bytes) (stream : Stream), system.registry.streams[id]? = some stream →
    stream.Retains system.registry.limits.retentionBytes (incarnationLog id log)

theorem System.Retains.step {system : System} {log : List StreamEvent} (h : system.Retains log)
    (native : Native) (operation : Operation) :
    (system.step native operation).state.Retains
      (log ++ publishedEvents (system.step native operation).emitted) := by
  intro id stream hFound
  rw [(step_settings operation).1]
  cases step_fate log hFound with
  | kept hStream hLog => exact hLog ▸ h id stream hStream
  | @opened next request incarnation event now hStream hEvent hLog =>
    have hNew : next.Retains system.registry.limits.retentionBytes [] := by
      rw [hStream]
      exact ⟨.whole (Nat.zero_le _), rfl⟩
    rw [hLog]
    exact hNew.record event
  | @continued old next draft event now hOld hOpen hNext hEvent hLog =>
    obtain ⟨-, -, -, hHistory, hBytes⟩ := hNext.frame
    have hBefore := h id old hOld
    rw [hLog]
    apply Stream.Retains.record
    constructor
    · rw [hHistory]
      exact hBefore.longest
    · rw [hHistory, hBytes]
      exact hBefore.bytes

theorem Server.retains (server : Server) (operations : List Operation) :
    (server.state operations).Retains (server.log operations) := by
  induction operations using List.reverseRecOn with
  | nil =>
    intro id stream hStream
    simp [Server.start, System.initial] at hStream
  | append_singleton operations operation ih =>
    rw [server.state_snoc, server.log_snoc]
    exact ih.step server.native operation

/-- In every reachable state a stream's history is the longest affordable end of the events
`1, …, n` of its incarnation, with its bytes counted exactly and its first number recorded. -/
theorem retained_history_longest (server : Server) (operations : List Operation) (id : Bytes)
    (stream : Stream) (hStream : (server.state operations).registry.streams[id]? = some stream)
    (log : List StreamEvent) (hLog : log = incarnationLog id (server.log operations)) :
    log.map (fun event => event.cursor.eventSequence) = List.range' 1 log.length ∧
      Longest StreamEvent.charge server.limits.retentionBytes log stream.history ∧
      stream.historyBytes = total StreamEvent.charge stream.history ∧
      stream.snapshot.firstRetainedSequence =
        (match stream.history with
        | [] => log.length + 1
        | event :: _ => event.cursor.eventSequence) ∧
      1 ≤ stream.snapshot.firstRetainedSequence ∧
      ∀ event : StreamEvent, Stream.EvictSafe server.limits.retentionBytes event.charge
        stream.history stream.historyBytes := by
  have hRetains := server.retains operations id stream hStream
  have hRecords := server.tracks operations id stream hStream
  rw [server.state_limits] at hRetains
  subst hLog
  generalize incarnationLog id (server.log operations) = log at hRetains hRecords
  have hFirst := firstRetained_eq hRecords.cursors (fun _ => rfl) hRecords.retained
  refine ⟨?_, hRetains.longest, hRetains.bytes, ?_, ?_, ?_⟩
  · have hNumbers := congrArg (List.map Cursor.eventSequence) hRecords.cursors
    rw [List.map_map, List.map_map] at hNumbers
    exact hNumbers.trans (List.map_id _)
  · rw [hRecords.firstRetained, ← hFirst]
    rfl
  · rw [hRecords.firstRetained]
    exact Nat.le_add_left _ _
  · intro event
    rw [hRetains.bytes]
    exact Stream.evictSafe_total _ _ _

/-- Two chunks after the opening, in a registry that affords a single event. -/
theorem retained_history_longest_chunks :
    ∃ stream : Stream,
      ((smallServer 700).state [openTalk 1, talkChunk 1, talkChunk 2]).registry.streams[talkId]? =
        some stream ∧
      Longest StreamEvent.charge 700
        (incarnationLog talkId ((smallServer 700).log [openTalk 1, talkChunk 1, talkChunk 2]))
        stream.history := by
  obtain ⟨stream, hStream⟩ : ∃ stream : Stream,
      ((smallServer 700).state [openTalk 1, talkChunk 1, talkChunk 2]).registry.streams[talkId]? =
        some stream := Option.isSome_iff_exists.mp (by decide +kernel)
  exact ⟨stream, hStream, (retained_history_longest (smallServer 700) _ talkId stream hStream _ rfl).2.1⟩

end GrpcAsr.Media
