import GrpcAsr.Media.SnapshotFold

/-!
# What the trimming of a snapshot keeps

`derived` puts its result into the snapshot and then drops the oldest results, hypotheses
before transcripts, until the snapshot fits the retention budget. So it keeps the newest 16
hypotheses and 64 transcripts or fewer hypotheses, or no hypothesis and fewer transcripts:
of these snapshots the largest that fits.
-/

namespace GrpcAsr.Media

set_option autoImplicit false

namespace StreamSnapshot

def Bare (snapshot : StreamSnapshot) : Prop :=
  snapshot.hypotheses = [] ∧ snapshot.transcripts = []

/-- The newest results of a snapshot, so many of each kind. -/
def newest (snapshot : StreamSnapshot) (hypotheses transcripts : Nat) : StreamSnapshot :=
  { snapshot with
    hypotheses := snapshot.hypotheses.drop (snapshot.hypotheses.length - hypotheses)
    transcripts := snapshot.transcripts.drop (snapshot.transcripts.length - transcripts)
    resultStateTruncated := snapshot.resultStateTruncated ||
      decide (hypotheses < snapshot.hypotheses.length ∨ transcripts < snapshot.transcripts.length) }

/-- How many results of each kind a snapshot may keep: all the transcripts while there is a
hypothesis. -/
structure Quota (h t : Nat) : Prop where
  hypotheses : h ≤ 16
  transcripts : t ≤ 64
  order : h = 0 ∨ t = 64

/-- The snapshot with all that an event brings, before any result is dropped. -/
def offered (snapshot : StreamSnapshot) (producer : Producer) (event : StreamEvent) :
    StreamSnapshot :=
  { snapshot with
    producers :=
      if producer ∈ snapshot.producers then snapshot.producers
      else snapshot.producers ++ [producer]
    mediaInfo := event.mediaInfo?.or snapshot.mediaInfo
    httpInfo := event.httpInfo?.or snapshot.httpInfo
    transcripts := snapshot.transcriptsWith event
    hypotheses := snapshot.hypothesesWith event }

variable {full : StreamSnapshot} {retention h t : Nat}

/-! ## Sizes -/

theorem delimited_two_le (field length : Nat) : 2 ≤ Wire.delimited field length := by
  unfold Wire.delimited Wire.tag Wire.varint
  split <;> omega

/-- Fewer results take fewer bytes, at least two for each that goes. -/
theorem repeated_newest_le {α : Type} (size : α → Nat) (hSize : ∀ a, 2 ≤ size a) (items : List α)
    {fewer more : Nat} (h : fewer ≤ more) :
    Wire.repeated size (items.drop (items.length - fewer)) +
        (if fewer < items.length ∧ items.length ≤ more then 2 else 0) ≤
      Wire.repeated size (items.drop (items.length - more)) := by
  have hSplit : items.drop (items.length - more) =
      (items.drop (items.length - more)).take (items.length - fewer - (items.length - more)) ++
        items.drop (items.length - fewer) := by
    conv_lhs => rw [← List.take_append_drop (items.length - fewer - (items.length - more))
      (items.drop (items.length - more))]
    rw [List.drop_drop, show items.length - more + (items.length - fewer - (items.length - more)) =
      items.length - fewer by omega]
  rw [hSplit, Wire.repeated, Wire.repeated, List.map_append, List.sum_append]
  split
  · rename_i hGone
    have hSome : (items.drop (items.length - more)).take
        (items.length - fewer - (items.length - more)) ≠ [] := by
      apply List.ne_nil_of_length_pos
      rw [List.length_take, List.length_drop]
      omega
    obtain ⟨first, rest, hFirst⟩ := List.exists_cons_of_ne_nil hSome
    have hTwo := hSize first
    rw [hFirst, List.map_cons, List.sum_cons]
    omega
  · omega

theorem newest_byteSize_le {h' t' : Nat} (hHypotheses : h' ≤ h) (hTranscripts : t' ≤ t) :
    (full.newest h' t').byteSize ≤ (full.newest h t).byteSize := by
  have hFewerHypotheses := repeated_newest_le (fun h => Wire.delimited 9 h.byteSize)
    (fun h => delimited_two_le 9 h.byteSize) full.hypotheses hHypotheses
  have hFewerTranscripts := repeated_newest_le (fun t => Wire.delimited 6 t.byteSize)
    (fun t => delimited_two_le 6 t.byteSize) full.transcripts hTranscripts
  -- The flag costs two bytes, which the first dropped result pays for.
  have hFlag : Wire.flag 7 (full.newest h' t').resultStateTruncated ≤
      Wire.flag 7 (full.newest h t).resultStateTruncated +
        (if h' < full.hypotheses.length ∧ full.hypotheses.length ≤ h then 2 else 0) +
        (if t' < full.transcripts.length ∧ full.transcripts.length ≤ t then 2 else 0) := by
    have hTwo : Wire.tag 7 + 1 = 2 := rfl
    simp only [newest, Wire.flag, hTwo, Bool.or_eq_true, decide_eq_true_eq]
    by_cases hBefore : full.resultStateTruncated = true ∨ h < full.hypotheses.length ∨
        t < full.transcripts.length
    · rw [if_pos hBefore]
      split <;> omega
    · rw [if_neg hBefore]
      rw [not_or, not_or, Nat.not_lt, Nat.not_lt] at hBefore
      split
      · rename_i hAfter
        rcases hAfter with hAlready | hGone | hGone
        · exact absurd hAlready hBefore.1
        · rw [if_pos ⟨hGone, hBefore.2.1⟩]
          omega
        · have hPaid : t' < full.transcripts.length ∧ full.transcripts.length ≤ t :=
            ⟨hGone, hBefore.2.2⟩
          rw [if_pos hPaid]
          omega
      · exact Nat.zero_le _
  unfold byteSize
  simp only [newest] at hFewerHypotheses hFewerTranscripts hFlag ⊢
  omega

/-! ## The line of snapshots -/

theorem newest_min (full : StreamSnapshot) (h t : Nat) :
    full.newest (min h full.hypotheses.length) (min t full.transcripts.length) =
      full.newest h t := by
  have hHypotheses : full.hypotheses.length - min h full.hypotheses.length =
      full.hypotheses.length - h := by omega
  have hTranscripts : full.transcripts.length - min t full.transcripts.length =
      full.transcripts.length - t := by omega
  have hFlag : (min h full.hypotheses.length < full.hypotheses.length ∨
      min t full.transcripts.length < full.transcripts.length) ↔
      (h < full.hypotheses.length ∨ t < full.transcripts.length) := by omega
  simp only [newest, hHypotheses, hTranscripts, hFlag]

theorem capped_newest (full : StreamSnapshot) :
    full.capHypotheses.capTranscripts = full.newest 16 64 := by
  obtain ⟨through, firstRetained, opened, closed, producers, transcripts, truncated, mediaInfo,
    hypotheses, httpInfo⟩ := full
  unfold capHypotheses newest
  split
  · rename_i hOver
    unfold capTranscripts
    split
    · simp_all
    · rename_i hFits
      rw [Nat.not_lt] at hFits
      simp_all
  · rename_i hFits
    unfold capTranscripts
    rw [Nat.not_lt] at hFits
    split
    · simp_all
    · rename_i hFew
      rw [Nat.not_lt] at hFew
      simp_all

theorem newest_dropHypothesis (hSome : 0 < h) (hHypotheses : h ≤ full.hypotheses.length) :
    (full.newest h t).dropOldest = full.newest (h - 1) t := by
  have hLeft : (full.newest h t).hypotheses.isEmpty = false := by
    rw [List.isEmpty_eq_false_iff, newest]
    apply List.ne_nil_of_length_pos
    rw [List.length_drop]
    omega
  have hDrop : full.hypotheses.length - h + 1 = full.hypotheses.length - (h - 1) := by omega
  have hGone : h - 1 < full.hypotheses.length := by omega
  rw [dropOldest, hLeft, if_neg Bool.false_ne_true]
  simp only [newest, List.drop_drop, hDrop, hGone, true_or, decide_true, Bool.or_true]

theorem newest_dropTranscript (hSome : 0 < t) (hTranscripts : t ≤ full.transcripts.length) :
    (full.newest 0 t).dropOldest = full.newest 0 (t - 1) := by
  have hNone : (full.newest 0 t).hypotheses.isEmpty = true := by
    rw [List.isEmpty_iff, newest, Nat.sub_zero, List.drop_length]
  have hDrop : full.transcripts.length - t + 1 = full.transcripts.length - (t - 1) := by omega
  have hGone : t - 1 < full.transcripts.length := by omega
  rw [dropOldest, hNone, if_pos rfl]
  simp only [newest, List.drop_drop, hDrop, hGone, or_true, decide_true, Bool.or_true]

/-- No snapshot that keeps more than these results fits. -/
structure Largest (retention : Nat) (full : StreamSnapshot) (h t : Nat) : Prop where
  hypotheses : h ≤ min 16 full.hypotheses.length
  transcripts : t ≤ min 64 full.transcripts.length
  order : h = 0 ∨ t = min 64 full.transcripts.length
  above : ∀ h' t', Quota h' t' → (full.newest h' t').byteSize ≤ retention →
    min h' full.hypotheses.length ≤ h ∧ min t' full.transcripts.length ≤ t

theorem Largest.dropHypothesis (hLargest : Largest retention full h t) (hSome : 0 < h)
    (hOver : retention < (full.newest h t).byteSize) : Largest retention full (h - 1) t := by
  have hBelow := hLargest.hypotheses
  have hAll : t = min 64 full.transcripts.length :=
    hLargest.order.resolve_left (Nat.ne_of_gt hSome)
  refine ⟨by omega, hLargest.transcripts, .inr hAll, fun h' t' hQuota hFits => ?_⟩
  obtain ⟨hLess, hLater⟩ := hLargest.above h' t' hQuota hFits
  refine ⟨?_, hLater⟩
  by_contra hSame
  have hSame : min h' full.hypotheses.length = h := by omega
  have hFull : t' = 64 := hQuota.order.resolve_left (by omega)
  rw [← newest_min, hSame, hFull, ← hAll] at hFits
  omega

theorem Largest.dropTranscript (hLargest : Largest retention full 0 t)
    (hOver : retention < (full.newest 0 t).byteSize) : Largest retention full 0 (t - 1) := by
  have hBelow := hLargest.transcripts
  refine ⟨Nat.zero_le _, by omega, .inl rfl, fun h' t' hQuota hFits => ?_⟩
  obtain ⟨hNone, hLater⟩ := hLargest.above h' t' hQuota hFits
  refine ⟨hNone, ?_⟩
  by_contra hSame
  have hSame : min t' full.transcripts.length = t := by omega
  rw [← newest_min, Nat.le_zero.mp hNone, hSame] at hFits
  omega

theorem shrink_largest (rounds : Nat) (hLargest : Largest retention full h t) :
    ∃ h' t', Largest retention full h' t' ∧
      (full.newest h t).shrink retention rounds = full.newest h' t' := by
  induction rounds generalizing h t with
  | zero => exact ⟨h, t, hLargest, rfl⟩
  | succ rounds ih =>
    have hHypotheses := hLargest.hypotheses
    have hTranscripts := hLargest.transcripts
    rw [shrink]
    split
    · rename_i hOver
      obtain ⟨hOver, hResults⟩ := hOver
      rcases Nat.eq_zero_or_pos h with rfl | hSome
      · have hLeft : 0 < t := by
          rw [Nat.pos_iff_ne_zero]
          rintro rfl
          simp [newest] at hResults
        rw [newest_dropTranscript hLeft (by omega)]
        exact ih (hLargest.dropTranscript hOver)
      · rw [newest_dropHypothesis hSome (by omega)]
        exact ih (hLargest.dropHypothesis hSome hOver)
    · exact ⟨h, t, hLargest, rfl⟩

theorem bounded_largest (retention : Nat) (full : StreamSnapshot) :
    ∃ h t, Largest retention full h t ∧ full.bounded retention = full.newest h t := by
  have hStart : Largest retention full (min 16 full.hypotheses.length)
      (min 64 full.transcripts.length) := by
    refine ⟨Nat.le_refl _, Nat.le_refl _, .inr rfl, fun h' t' hQuota _ => ?_⟩
    have hHypotheses := hQuota.hypotheses
    have hTranscripts := hQuota.transcripts
    omega
  have hCapped := (capped_newest full).trans (newest_min full 16 64).symm
  rw [bounded, hCapped]
  exact shrink_largest _ hStart

/-- The trimming keeps one of the snapshots of the line. -/
theorem bounded_quota (retention : Nat) (full : StreamSnapshot) :
    ∃ h t, Quota h t ∧ full.bounded retention = full.newest h t := by
  obtain ⟨h, t, hLargest, hBounded⟩ := bounded_largest retention full
  have hHypotheses := hLargest.hypotheses
  have hTranscripts := hLargest.transcripts
  rcases hLargest.order with rfl | hAll
  · exact ⟨0, t, ⟨Nat.zero_le _, by omega, .inl rfl⟩, hBounded⟩
  · refine ⟨h, 64, ⟨by omega, Nat.le_refl _, .inr rfl⟩, ?_⟩
    rw [hBounded, ← newest_min full h 64, ← hAll, Nat.min_eq_left (by omega)]

/-- Of the snapshots of the line that fit, the trimming keeps the largest. -/
theorem newest_le_bounded (hQuota : Quota h t) (hFits : (full.newest h t).byteSize ≤ retention) :
    (full.newest h t).byteSize ≤ (full.bounded retention).byteSize ∧
      ((full.bounded retention).Bare → (full.newest h t).Bare) := by
  obtain ⟨h', t', hLargest, hBounded⟩ := bounded_largest retention full
  obtain ⟨hLess, hFewer⟩ := hLargest.above h t hQuota hFits
  have hHypotheses := hLargest.hypotheses
  have hTranscripts := hLargest.transcripts
  rw [hBounded]
  constructor
  · rw [← newest_min full h t]
    exact newest_byteSize_le hLess hFewer
  · rintro ⟨hNone, hNothing⟩
    simp only [newest, List.drop_eq_nil_iff] at hNone hNothing
    constructor
    · rw [newest, List.drop_eq_nil_iff]
      omega
    · rw [newest, List.drop_eq_nil_iff]
      omega

/-! ## The result of a derived event -/

theorem absorb_offered (snapshot : StreamSnapshot) {producers : List Producer} {producer : Producer}
    {event : StreamEvent} (hDerived : event.payload.any Payload.isDerived = true)
    (hProducers : producers =
      if producer ∈ snapshot.producers then snapshot.producers
      else snapshot.producers ++ [producer]) :
    ({ snapshot with producers := producers } : StreamSnapshot).absorb event.payload =
      snapshot.offered producer event := by
  subst hProducers
  obtain ⟨cursor, eventProducer, emittedAt, payload⟩ := event
  cases payload with
  | none => cases hDerived
  | some payload =>
    cases payload <;>
      first
      | (cases hDerived; done)
      | simp [absorb, offered, StreamEvent.mediaInfo?, StreamEvent.httpInfo?,
          StreamEvent.transcript?, StreamEvent.hypothesis?, transcriptsWith, hypothesesWith]

end StreamSnapshot

/-- `derive` accepts an event by its checks, and trims the snapshot with all the event brings. -/
theorem derive_iff {retention : Nat} {old stream : Stream} {draft draft' : EventDraft}
    {libraryVersion epoch id : Bytes} {now : Timestamp}
    (hPayload : draft.payload.any Payload.isDerived = true) :
    old.derive retention draft libraryVersion = .ok (draft', stream) ↔
      draft.attributeTo old.producer libraryVersion = .ok draft' ∧
      draft'.checkTranscript old.snapshot.transcripts = .ok () ∧
      (draft'.effectiveProducer ∈ old.snapshot.producers ∨ old.snapshot.producers.length < 16) ∧
      stream = { old with
        snapshot := (old.snapshot.offered draft'.effectiveProducer
          (old.stamp epoch id now draft')).bounded retention } := by
  constructor
  · intro hDerive
    obtain ⟨snapshot, hAttributed, hChecked, hAdded, rfl⟩ := derive_eq_ok hDerive
    have hDerived : (old.stamp epoch id now draft').payload.any Payload.isDerived = true :=
      (attributeTo_payload hAttributed).trans hPayload
    have hRoom : draft'.effectiveProducer ∈ old.snapshot.producers ∨
        old.snapshot.producers.length < 16 := by
      unfold StreamSnapshot.addProducer at hAdded
      split at hAdded
      · rename_i hFound
        exact .inl (by simpa using hFound)
      · obtain ⟨_, hRoom, -⟩ := bind_eq_ok hAdded
        exact .inr (by simpa using require_eq_ok.mp hRoom)
    obtain ⟨producers, rfl, hProducers, -⟩ := addProducer_eq_ok hAdded
    refine ⟨hAttributed, hChecked, hRoom, ?_⟩
    rw [← StreamSnapshot.absorb_offered old.snapshot hDerived hProducers]
    rfl
  · rintro ⟨hAttributed, hChecked, hRoom, rfl⟩
    have hDerived : (old.stamp epoch id now draft').payload.any Payload.isDerived = true :=
      (attributeTo_payload hAttributed).trans hPayload
    have hAdded : old.snapshot.addProducer draft'.effectiveProducer = .ok
        { old.snapshot with
          producers :=
            if draft'.effectiveProducer ∈ old.snapshot.producers then old.snapshot.producers
            else old.snapshot.producers ++ [draft'.effectiveProducer] } := by
      unfold StreamSnapshot.addProducer
      by_cases hFound : draft'.effectiveProducer ∈ old.snapshot.producers
      · rw [if_pos (by simpa using hFound), if_pos hFound]
      · rw [if_neg (by simpa using hFound), if_neg hFound,
          decide_eq_true (hRoom.resolve_left hFound), require_true]
        rfl
    rw [← StreamSnapshot.absorb_offered old.snapshot hDerived rfl, Stream.derive, hAttributed]
    simp only [bind, Except.bind, hChecked, hAdded]
    rfl

end GrpcAsr.Media
