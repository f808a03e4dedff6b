import GrpcAsr.Media.RegistrySteps

/-!
# A stream's state as the fold of its event log

`Records` ties a stream to the events published for it since it was opened: numbering,
retained history and snapshot. It is established by the opening event and kept by every
continuation. Results may be trimmed from the front of the two result lists only, and
the truncation flag says whether that ever happened.
-/

namespace GrpcAsr.Media

set_option autoImplicit false

/-- The results of `kept` are what is left of those of `whole` after drops from the front,
and a drop sets the flag. -/
structure StreamSnapshot.Trims (whole kept : StreamSnapshot) : Prop where
  frame : kept = { whole with
    transcripts := kept.transcripts
    hypotheses := kept.hypotheses
    resultStateTruncated := kept.resultStateTruncated }
  transcripts : kept.transcripts <:+ whole.transcripts
  hypotheses : kept.hypotheses <:+ whole.hypotheses
  flag : kept.resultStateTruncated = true ↔ whole.resultStateTruncated = true ∨
    kept.transcripts ≠ whole.transcripts ∨ kept.hypotheses ≠ whole.hypotheses

theorem suffix_eq_of_between {α : Type} {a b c : List α} (hab : a <:+ b) (hbc : b <:+ c) :
    a = c ↔ a = b ∧ b = c := by
  constructor
  · rintro rfl
    have hEq := hab.eq_of_length_le hbc.length_le
    exact ⟨hEq, hEq.symm⟩
  · rintro ⟨rfl, rfl⟩
    rfl

namespace StreamSnapshot.Trims

variable {a b c : StreamSnapshot}

theorem refl (a : StreamSnapshot) : a.Trims a :=
  ⟨rfl, List.suffix_refl _, List.suffix_refl _, by simp⟩

theorem trans (hab : a.Trims b) (hbc : b.Trims c) : a.Trims c where
  frame := by
    rw [hbc.frame, hab.frame]
  transcripts := hbc.transcripts.trans hab.transcripts
  hypotheses := hbc.hypotheses.trans hab.hypotheses
  flag := by
    rw [hbc.flag, hab.flag, Ne, Ne, Ne, Ne, Ne, Ne,
      suffix_eq_of_between hbc.transcripts hab.transcripts,
      suffix_eq_of_between hbc.hypotheses hab.hypotheses]
    tauto

end StreamSnapshot.Trims

theorem drop_ne_self {α : Type} {xs : List α} {n : Nat} (hn : 0 < n) (hxs : xs ≠ []) :
    xs.drop n ≠ xs := by
  intro h
  have hLength := congrArg List.length h
  rw [List.length_drop] at hLength
  have hPos := List.length_pos_iff.mpr hxs
  omega

namespace StreamSnapshot

theorem capHypotheses_trims (snapshot : StreamSnapshot) :
    snapshot.Trims snapshot.capHypotheses := by
  unfold capHypotheses
  split
  · rename_i hOver
    have hSome := List.ne_nil_of_length_pos (by omega : 0 < snapshot.hypotheses.length)
    exact ⟨rfl, List.suffix_refl _, List.drop_suffix _ _,
      iff_of_true rfl (.inr (.inr (drop_ne_self (by omega) hSome)))⟩
  · exact .refl snapshot

theorem capTranscripts_trims (snapshot : StreamSnapshot) :
    snapshot.Trims snapshot.capTranscripts := by
  unfold capTranscripts
  split
  · rename_i hOver
    have hSome := List.ne_nil_of_length_pos (by omega : 0 < snapshot.transcripts.length)
    exact ⟨rfl, List.drop_suffix _ _, List.suffix_refl _,
      iff_of_true rfl (.inr (.inl (drop_ne_self (by omega) hSome)))⟩
  · exact .refl snapshot

theorem dropOldest_trims {snapshot : StreamSnapshot}
    (h : (!snapshot.hypotheses.isEmpty || !snapshot.transcripts.isEmpty) = true) :
    snapshot.Trims snapshot.dropOldest := by
  unfold dropOldest
  split
  · rename_i hEmpty
    have hSome : snapshot.transcripts ≠ [] := by simpa [hEmpty] using h
    exact ⟨rfl, List.drop_suffix _ _, List.suffix_refl _,
      iff_of_true rfl (.inr (.inl (drop_ne_self Nat.one_pos hSome)))⟩
  · rename_i hSome
    have hSome : snapshot.hypotheses ≠ [] := by simpa using hSome
    exact ⟨rfl, List.suffix_refl _, List.drop_suffix _ _,
      iff_of_true rfl (.inr (.inr (drop_ne_self Nat.one_pos hSome)))⟩

theorem shrink_trims (retention rounds : Nat) (snapshot : StreamSnapshot) :
    snapshot.Trims (snapshot.shrink retention rounds) := by
  induction rounds generalizing snapshot with
  | zero => exact .refl snapshot
  | succ rounds ih =>
    rw [shrink]
    split
    · rename_i hOver
      exact (dropOldest_trims hOver.2).trans (ih snapshot.dropOldest)
    · exact .refl snapshot

/-- The byte loop stops only within the budget or with no result left to drop. -/
theorem shrink_done (retention rounds : Nat) (snapshot : StreamSnapshot)
    (hRounds : snapshot.hypotheses.length + snapshot.transcripts.length ≤ rounds) :
    (snapshot.shrink retention rounds).byteSize ≤ retention ∨
      (snapshot.shrink retention rounds).hypotheses = [] ∧
        (snapshot.shrink retention rounds).transcripts = [] := by
  induction rounds generalizing snapshot with
  | zero =>
    exact .inr ⟨List.eq_nil_of_length_eq_zero (by rw [shrink]; omega),
      List.eq_nil_of_length_eq_zero (by rw [shrink]; omega)⟩
  | succ rounds ih =>
    rw [shrink]
    split
    · rename_i hOver
      refine ih _ ?_
      unfold dropOldest
      split
      · rename_i hEmpty
        have hSome : snapshot.transcripts ≠ [] := by simpa [hEmpty] using hOver.2
        have hPos := List.length_pos_iff.mpr hSome
        simp only [List.length_drop]
        omega
      · rename_i hSome
        have hPos := List.length_pos_iff.mpr (by simpa using hSome : snapshot.hypotheses ≠ [])
        simp only [List.length_drop]
        omega
    · rename_i hStop
      rw [not_and_or, Nat.not_lt] at hStop
      exact hStop.imp_right fun hNone => by simpa using hNone

/-- A bounded snapshot fits the budget, or holds no result at all. -/
theorem bounded_done (retention : Nat) (snapshot : StreamSnapshot) :
    (snapshot.bounded retention).byteSize ≤ retention ∨
      (snapshot.bounded retention).hypotheses = [] ∧
        (snapshot.bounded retention).transcripts = [] :=
  shrink_done _ _ _ (Nat.le_refl _)

theorem bounded_trims (retention : Nat) (snapshot : StreamSnapshot) :
    snapshot.Trims (snapshot.bounded retention) :=
  (capHypotheses_trims snapshot).trans
    ((capTranscripts_trims snapshot.capHypotheses).trans (shrink_trims _ _ _))

end StreamSnapshot

/-- The results a snapshot would hold after `event` if none were dropped. -/
def StreamSnapshot.transcriptsWith (snapshot : StreamSnapshot) (event : StreamEvent) :
    List TranscriptSegment :=
  match event.transcript? with
  | none => snapshot.transcripts
  | some t => supersede snapshot.transcripts t

def StreamSnapshot.hypothesesWith (snapshot : StreamSnapshot) (event : StreamEvent) :
    List SpeechHypothesis := snapshot.hypotheses ++ event.hypothesis?.toList

/-- `new` is `old` brought up to date with `event`, up to the publication marks. -/
structure StreamSnapshot.Takes (old : StreamSnapshot) (event : StreamEvent)
    (new : StreamSnapshot) : Prop where
  opened : new.opened = event.opened?.or old.opened
  closed : new.closed = event.closed?.or old.closed
  mediaInfo : new.mediaInfo = event.mediaInfo?.or old.mediaInfo
  httpInfo : new.httpInfo = event.httpInfo?.or old.httpInfo
  producers : ∃ producer, event.producer = some producer ∧
    new.producers =
      if producer ∈ old.producers then old.producers else old.producers ++ [producer]
  producersBound : old.producers.length ≤ 16 → new.producers.length ≤ 16
  transcripts : new.transcripts <:+ old.transcriptsWith event
  hypotheses : new.hypotheses <:+ old.hypothesesWith event
  flag : new.resultStateTruncated = true ↔ old.resultStateTruncated = true ∨
    new.transcripts ≠ old.transcriptsWith event ∨ new.hypotheses ≠ old.hypothesesWith event

theorem addProducer_eq_ok {old new : StreamSnapshot} {producer : Producer}
    (h : old.addProducer producer = .ok new) :
    ∃ producers, new = { old with producers := producers } ∧
      producers =
        (if producer ∈ old.producers then old.producers else old.producers ++ [producer]) ∧
      (old.producers.length ≤ 16 → producers.length ≤ 16) := by
  unfold StreamSnapshot.addProducer at h
  split at h
  · rename_i hFound
    cases h
    refine ⟨old.producers, rfl, ?_, id⟩
    rw [if_pos (by simpa using hFound)]
  · rename_i hNew
    obtain ⟨_, hRoom, h⟩ := bind_eq_ok h
    cases h
    refine ⟨old.producers ++ [producer], rfl, ?_, fun _ => ?_⟩
    · rw [if_neg (by simpa using hNew)]
    · have hRoom : old.producers.length < 16 := by simpa using require_eq_ok.mp hRoom
      rw [List.length_append, List.length_singleton]
      exact hRoom

theorem derive_eq_ok {retention : Nat} {old stream : Stream} {draft draft' : EventDraft}
    {libraryVersion : Bytes}
    (h : old.derive retention draft libraryVersion = .ok (draft', stream)) :
    ∃ snapshot, draft.attributeTo old.producer libraryVersion = .ok draft' ∧
      draft'.checkTranscript old.snapshot.transcripts = .ok () ∧
      old.snapshot.addProducer draft'.effectiveProducer = .ok snapshot ∧
      stream = { old with snapshot := (snapshot.absorb draft'.payload).bounded retention } := by
  obtain ⟨attributed, hAttributed, h⟩ := bind_eq_ok h
  obtain ⟨_, hChecked, h⟩ := bind_eq_ok h
  obtain ⟨snapshot, hSnapshot, h⟩ := bind_eq_ok h
  cases h
  exact ⟨snapshot, hAttributed, hChecked, hSnapshot, rfl⟩

theorem attributeTo_payload {producer : Producer} {libraryVersion : Bytes}
    {draft draft' : EventDraft} (h : draft.attributeTo producer libraryVersion = .ok draft') :
    draft'.payload.any Payload.isDerived = draft.payload.any Payload.isDerived := by
  unfold EventDraft.attributeTo at h
  split at h
  · cases h
    rfl
  · rename_i hypothesis hPayload
    obtain ⟨_, -, h⟩ := bind_eq_ok h
    cases h
    rw [hPayload]
    rfl
  · cases h
    rfl

/-- Every derived event that passes the checks names its producer. -/
theorem derived_producer {producer : Producer} {libraryVersion : Bytes} {draft draft' : EventDraft}
    {transcripts : List TranscriptSegment}
    (h : draft.attributeTo producer libraryVersion = .ok draft')
    (hChecked : draft'.checkTranscript transcripts = .ok ()) :
    draft'.producer = some draft'.effectiveProducer := by
  have hSome : draft'.producer.isSome = true := by
    unfold EventDraft.attributeTo at h
    split at h
    · rename_i segment hPayload
      cases h
      rw [EventDraft.checkTranscript, EventDraft.transcript?, hPayload] at hChecked
      obtain ⟨_, hIdentified, -⟩ := bind_eq_ok hChecked
      have hIdentified := require_eq_ok.mp hIdentified
      simp only [EventDraft.identified, Bool.and_eq_true] at hIdentified
      exact hIdentified.1.1.1.1.2
    · obtain ⟨_, hModel, h⟩ := bind_eq_ok h
      cases h
      have hModel := require_eq_ok.mp hModel
      exact Option.isSome_of_any hModel
    · cases h
      rfl
  rw [EventDraft.effectiveProducer]
  obtain ⟨p, hp⟩ := Option.isSome_iff_exists.mp hSome
  rw [hp]
  rfl

theorem absorb_frame (snapshot : StreamSnapshot) (payload : Option Payload) :
    (snapshot.absorb payload).producers = snapshot.producers ∧
      (snapshot.absorb payload).resultStateTruncated = snapshot.resultStateTruncated := by
  unfold StreamSnapshot.absorb
  split <;> exact ⟨rfl, rfl⟩

/-- A derived payload updates the snapshot field it belongs to. -/
theorem absorb_takes (snapshot : StreamSnapshot) {event : StreamEvent}
    (hDerived : event.payload.any Payload.isDerived = true) :
    (snapshot.absorb event.payload).opened = event.opened?.or snapshot.opened ∧
      (snapshot.absorb event.payload).closed = event.closed?.or snapshot.closed ∧
      (snapshot.absorb event.payload).mediaInfo = event.mediaInfo?.or snapshot.mediaInfo ∧
      (snapshot.absorb event.payload).httpInfo = event.httpInfo?.or snapshot.httpInfo ∧
      (snapshot.absorb event.payload).transcripts = snapshot.transcriptsWith event ∧
      (snapshot.absorb event.payload).hypotheses = snapshot.hypothesesWith event := by
  obtain ⟨cursor, producer, emittedAt, payload⟩ := event
  cases payload with
  | none => cases hDerived
  | some payload =>
    cases payload <;>
      first
      | (cases hDerived; done)
      | simp [StreamSnapshot.absorb, StreamEvent.opened?, StreamEvent.closed?,
          StreamEvent.mediaInfo?, StreamEvent.httpInfo?, StreamEvent.transcript?,
          StreamEvent.hypothesis?, StreamSnapshot.transcriptsWith, StreamSnapshot.hypothesesWith]

variable {retention : Nat} {old stream : Stream} {draft : EventDraft} {epoch id : Bytes}
  {now : Timestamp}

theorem derived_takes {draft' : EventDraft} {libraryVersion : Bytes}
    (hPayload : draft.payload.any Payload.isDerived = true)
    (hDerive : old.derive retention draft libraryVersion = .ok (draft', stream)) :
    old.snapshot.Takes (stream.stamp epoch id now draft') stream.snapshot := by
  obtain ⟨snapshot, hAttributed, hChecked, hProducer, rfl⟩ := derive_eq_ok hDerive
  obtain ⟨producers, rfl, hProducers, hBound⟩ := addProducer_eq_ok hProducer
  have hNamed := derived_producer hAttributed hChecked
  have hDerived := (attributeTo_payload hAttributed).trans hPayload
  generalize hEvent : Stream.stamp _ epoch id now draft' = event
  have hEventPayload : event.payload = draft'.payload := by rw [← hEvent]; rfl
  have hEventProducer : event.producer = some draft'.effectiveProducer := by
    rw [← hEvent, Stream.stamp, hNamed]
    rfl
  rw [← hEventPayload] at hDerived ⊢
  obtain ⟨hAbsorbProducers, hAbsorbFlag⟩ :=
    absorb_frame { old.snapshot with producers := producers } event.payload
  obtain ⟨hOpened, hClosed, hMediaInfo, hHttpInfo, hTranscripts, hHypotheses⟩ :=
    absorb_takes { old.snapshot with producers := producers } hDerived
  have hTrims := StreamSnapshot.bounded_trims retention
    (StreamSnapshot.absorb { old.snapshot with producers := producers } event.payload)
  have hKept := (congrArg StreamSnapshot.producers hTrims.frame).trans hAbsorbProducers
  exact
    { opened := (congrArg StreamSnapshot.opened hTrims.frame).trans hOpened
      closed := (congrArg StreamSnapshot.closed hTrims.frame).trans hClosed
      mediaInfo := (congrArg StreamSnapshot.mediaInfo hTrims.frame).trans hMediaInfo
      httpInfo := (congrArg StreamSnapshot.httpInfo hTrims.frame).trans hHttpInfo
      producers := ⟨_, hEventProducer, hKept.trans hProducers⟩
      producersBound := fun hOld => hKept ▸ hBound hOld
      transcripts := hTranscripts ▸ hTrims.transcripts
      hypotheses := hHypotheses ▸ hTrims.hypotheses
      flag := by
        rw [hTrims.flag, hAbsorbFlag, hTranscripts, hHypotheses]
        rfl }

/-- An event that carries no result leaves the result lists alone. -/
theorem takes_of_no_result {snapshot : StreamSnapshot} {event : StreamEvent}
    {closed : Option StreamClosed} {producer : Producer}
    (hTranscript : event.transcript? = none) (hHypothesis : event.hypothesis? = none)
    (hOpened : event.opened? = none) (hMediaInfo : event.mediaInfo? = none)
    (hHttpInfo : event.httpInfo? = none) (hClosed : closed = event.closed?.or snapshot.closed)
    (hProducer : event.producer = some producer) (hKnown : producer ∈ snapshot.producers) :
    snapshot.Takes event { snapshot with closed := closed } := by
  have hTranscripts : snapshot.transcriptsWith event = snapshot.transcripts := by
    rw [StreamSnapshot.transcriptsWith, hTranscript]
  have hHypotheses : snapshot.hypothesesWith event = snapshot.hypotheses := by
    rw [StreamSnapshot.hypothesesWith, hHypothesis]
    exact List.append_nil _
  exact
    { opened := by rw [hOpened]; rfl
      closed := hClosed
      mediaInfo := by rw [hMediaInfo]; rfl
      httpInfo := by rw [hHttpInfo]; rfl
      producers := ⟨producer, hProducer, (if_pos hKnown).symm⟩
      producersBound := id
      transcripts := hTranscripts ▸ List.suffix_refl _
      hypotheses := hHypotheses ▸ List.suffix_refl _
      flag := by simp [hTranscripts, hHypotheses] }

/-- Every continuation brings the snapshot up to date with the event it publishes. -/
theorem Continuation.takes {operation : Operation}
    (h : Continuation retention id now old operation stream draft) (epoch : Bytes)
    (hProducer : old.producer ∈ old.snapshot.producers) :
    old.snapshot.Takes (stream.stamp epoch id now draft) stream.snapshot := by
  cases h with
  | source chunk => exact takes_of_no_result rfl rfl rfl rfl rfl rfl rfl hProducer
  | closed closed steadyNow => exact takes_of_no_result rfl rfl rfl rfl rfl rfl rfl hProducer
  | derived hPayload hDerive => exact derived_takes hPayload hDerive

/-- What a continuation leaves alone of the stream. -/
theorem Continuation.frame {operation : Operation}
    (h : Continuation retention id now old operation stream draft) :
    stream.incarnation = old.incarnation ∧ stream.producer = old.producer ∧
      stream.sequence = old.sequence ∧ stream.history = old.history ∧
      stream.historyBytes = old.historyBytes := by
  cases h with
  | source chunk => exact ⟨rfl, rfl, rfl, rfl, rfl⟩
  | closed closed steadyNow => exact ⟨rfl, rfl, rfl, rfl, rfl⟩
  | derived hPayload hDerive =>
    obtain ⟨snapshot, -, -, -, rfl⟩ := derive_eq_ok hDerive
    exact ⟨rfl, rfl, rfl, rfl, rfl⟩

/-- The snapshot that a log of events leaves, apart from results dropped for space. -/
structure StreamSnapshot.Folds (log : List StreamEvent) (snapshot : StreamSnapshot) : Prop where
  through : log.getLast?.map StreamEvent.cursor = some snapshot.through
  opened : snapshot.opened = (log.filterMap StreamEvent.opened?).getLast?
  closed : snapshot.closed = (log.filterMap StreamEvent.closed?).getLast?
  mediaInfo : snapshot.mediaInfo = (log.filterMap StreamEvent.mediaInfo?).getLast?
  httpInfo : snapshot.httpInfo = (log.filterMap StreamEvent.httpInfo?).getLast?
  producers : snapshot.producers = (log.filterMap StreamEvent.producer).eraseDups
  producersBound : snapshot.producers.length ≤ 16
  transcripts : snapshot.transcripts <:+
    revisions.lastOfEach (log.filterMap StreamEvent.transcript?)
  hypotheses : snapshot.hypotheses <:+ log.filterMap StreamEvent.hypothesis?
  complete : snapshot.resultStateTruncated = false →
    snapshot.transcripts = revisions.lastOfEach (log.filterMap StreamEvent.transcript?) ∧
      snapshot.hypotheses = log.filterMap StreamEvent.hypothesis?

theorem getLast?_filterMap_snoc {α β : Type} (f : α → Option β) (xs : List α) (x : α) :
    ((xs ++ [x]).filterMap f).getLast? = (f x).or (xs.filterMap f).getLast? := by
  rw [List.filterMap_append]
  cases h : f x <;> simp [h]

theorem eraseDups_snoc {α : Type} [DecidableEq α] (xs : List α) (x : α) :
    (xs ++ [x]).eraseDups = if x ∈ xs.eraseDups then xs.eraseDups else xs.eraseDups ++ [x] := by
  rw [List.eraseDups_append]
  by_cases h : x ∈ xs <;> simp [h, List.removeAll, List.mem_eraseDups, List.eraseDups_cons]

theorem supersede_eq {transcripts : List TranscriptSegment} (t : TranscriptSegment)
    (hNodup : (transcripts.map TranscriptSegment.segmentId).Nodup) :
    supersede transcripts t =
      transcripts.filter (fun prior => prior.segmentId ≠ t.segmentId) ++ [t] := by
  rw [supersede]
  congr 1
  induction transcripts with
  | nil => rfl
  | cons prior transcripts ih =>
    obtain ⟨hFirst, hRest⟩ := List.nodup_cons.mp hNodup
    by_cases hSame : prior.segmentId = t.segmentId
    · have hOthers : ∀ other ∈ transcripts, other.segmentId ≠ t.segmentId := fun other hOther hEq =>
        hFirst (List.mem_map.mpr ⟨other, hOther, hEq.trans hSame.symm⟩)
      rw [List.eraseP_cons_of_pos (by simpa using hSame), List.filter_cons_of_neg (by simpa using hSame)]
      exact (List.filter_eq_self.mpr fun other hOther => by simpa using hOthers other hOther).symm
    · rw [List.eraseP_cons_of_neg (by simpa using hSame), List.filter_cons_of_pos (by simpa using hSame),
        ih hRest]

/-- The latest revisions after one more event. -/
def advance (event : StreamEvent) (latest : List TranscriptSegment) : List TranscriptSegment :=
  match event.transcript? with
  | none => latest
  | some t => latest.filter (fun prior => prior.segmentId ≠ t.segmentId) ++ [t]

theorem lastOfEach_advance (log : List StreamEvent) (event : StreamEvent) :
    revisions.lastOfEach ((log ++ [event]).filterMap StreamEvent.transcript?) =
      advance event (revisions.lastOfEach (log.filterMap StreamEvent.transcript?)) := by
  rw [advance, List.filterMap_append]
  cases hEvent : event.transcript? with
  | none => simp [hEvent]
  | some t =>
    simp only [List.filterMap_cons, hEvent, List.filterMap_nil]
    exact revisions.lastOfEach_snoc _ t

theorem advance_suffix {kept latest : List TranscriptSegment} (event : StreamEvent)
    (h : kept <:+ latest) : advance event kept <:+ advance event latest := by
  rw [advance, advance]
  split
  · exact h
  · exact List.suffix_append_self_iff.mpr (h.filter _)

namespace StreamSnapshot.Folds

variable {log : List StreamEvent} {snapshot : StreamSnapshot}

theorem segments_nodup (h : snapshot.Folds log) :
    (snapshot.transcripts.map TranscriptSegment.segmentId).Nodup :=
  (revisions.lastOfEach_nodup _).sublist (h.transcripts.sublist.map _)

theorem transcriptsWith_eq (h : snapshot.Folds log) (event : StreamEvent) :
    snapshot.transcriptsWith event = advance event snapshot.transcripts := by
  rw [StreamSnapshot.transcriptsWith, advance]
  split
  · rfl
  · exact supersede_eq _ h.segments_nodup

theorem hypotheses_snoc (log : List StreamEvent) (event : StreamEvent) :
    (log ++ [event]).filterMap StreamEvent.hypothesis? =
      log.filterMap StreamEvent.hypothesis? ++ event.hypothesis?.toList := by
  rw [List.filterMap_append]
  cases hEvent : event.hypothesis? <;> simp [hEvent]

/-- A snapshot brought up to date with an event folds the log with that event. -/
theorem take (h : snapshot.Folds log) {event : StreamEvent} {new : StreamSnapshot}
    (hTakes : snapshot.Takes event new) (first : Nat) :
    StreamSnapshot.Folds (log ++ [event])
      { new with through := event.cursor, firstRetainedSequence := first } where
  through := by simp
  opened := by
    rw [getLast?_filterMap_snoc, ← h.opened]
    exact hTakes.opened
  closed := by
    rw [getLast?_filterMap_snoc, ← h.closed]
    exact hTakes.closed
  mediaInfo := by
    rw [getLast?_filterMap_snoc, ← h.mediaInfo]
    exact hTakes.mediaInfo
  httpInfo := by
    rw [getLast?_filterMap_snoc, ← h.httpInfo]
    exact hTakes.httpInfo
  producers := by
    obtain ⟨producer, hProducer, hProducers⟩ := hTakes.producers
    rw [List.filterMap_append, List.filterMap_cons, hProducer, List.filterMap_nil, eraseDups_snoc,
      ← h.producers]
    exact hProducers
  producersBound := hTakes.producersBound h.producersBound
  transcripts := by
    rw [lastOfEach_advance]
    exact hTakes.transcripts.trans (h.transcriptsWith_eq event ▸ advance_suffix event h.transcripts)
  hypotheses := by
    rw [hypotheses_snoc]
    exact hTakes.hypotheses.trans (List.suffix_append_self_iff.mpr h.hypotheses)
  complete := by
    intro hFlag
    have hNot := mt hTakes.flag.mpr (Bool.eq_false_iff.mp hFlag)
    push Not at hNot
    obtain ⟨hOld, hTranscripts, hHypotheses⟩ := hNot
    obtain ⟨hAll, hAllHypotheses⟩ := h.complete (Bool.eq_false_iff.mpr hOld)
    constructor
    · rw [lastOfEach_advance, ← hAll, ← h.transcriptsWith_eq event]
      exact hTranscripts
    · rw [hypotheses_snoc, ← hAllHypotheses]
      exact hHypotheses

/-- Taking an event raises the flag only when it leaves a result list incomplete. -/
theorem take_dropped (h : snapshot.Folds log) {event : StreamEvent} {new : StreamSnapshot}
    (hTakes : snapshot.Takes event new) (hFlag : new.resultStateTruncated = true) :
    snapshot.resultStateTruncated = true ∨
      new.transcripts ≠
        revisions.lastOfEach ((log ++ [event]).filterMap StreamEvent.transcript?) ∨
      new.hypotheses ≠ (log ++ [event]).filterMap StreamEvent.hypothesis? := by
  have hAdvance := h.transcriptsWith_eq event ▸ advance_suffix event h.transcripts
  have hAppend : snapshot.hypothesesWith event <:+ _ := List.suffix_append_self_iff.mpr h.hypotheses
  rw [lastOfEach_advance, hypotheses_snoc]
  refine (hTakes.flag.mp hFlag).imp_right (Or.imp ?_ ?_)
  · exact mt fun hAll => ((suffix_eq_of_between hTakes.transcripts hAdvance).mp hAll).1
  · exact mt fun hAll => ((suffix_eq_of_between hTakes.hypotheses hAppend).mp hAll).1

end StreamSnapshot.Folds

end GrpcAsr.Media
