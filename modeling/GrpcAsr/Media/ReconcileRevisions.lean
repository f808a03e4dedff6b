import GrpcAsr.Media.ReconcileSteps
import GrpcAsr.Media.TranscriptRevision

/-!
# The revision protocol of the reconciler

The segments handed out form one session of a revision log: the open record is the one
whose UUID the reconciler holds, and it is open exactly while tokens are pending.
-/

namespace GrpcAsr.Media

open Emitting Revisions

set_option autoImplicit false

/-- The first `n` UUIDs drawn differ. -/
def ReconcileEnv.Distinct (env : ReconcileEnv) (n : Nat) : Prop :=
  ∀ a < n, ∀ b < n, uuid (env.entropy a) = uuid (env.entropy b) → a = b

theorem ReconcileEnv.Distinct.mono {env : ReconcileEnv} {m n : Nat} (h : env.Distinct n)
    (hLe : m ≤ n) : env.Distinct m :=
  fun a ha b hb => h a (by omega) b (by omega)

/-- What holds of the segments handed out, also after a failure. -/
structure Revised (track : Nat) (log : List TranscriptSegment) : Prop where
  session : ∃ current, revisions.Session log current
  status : ∀ s ∈ log, s.reconciliation = .pending ↔ s.final = false
  tracks : ∀ s ∈ log, s.trackId = track

namespace Reconciler

/-- A reconciler that has not failed holds the UUID and the number of the open record. -/
structure Opens (env : ReconcileEnv) (track : Nat) (r : Reconciler) (log : List TranscriptSegment)
    (current : Option TranscriptSegment) : Prop where
  session : revisions.Session log current
  none_id : current = none → r.id = []
  some_id : ∀ s, current = some s → r.id = s.segmentId ∧ r.revision = s.revision
  idle : r.pending = [] → current = none
  drawn : ∀ s ∈ log, ∃ n < r.drawn, s.segmentId = uuid (env.entropy n)
  status : ∀ s ∈ log, s.reconciliation = .pending ↔ s.final = false
  tracks : ∀ s ∈ log, s.trackId = track
  metadata : r.pending ≠ [] → r.metadata.trackId = track

variable {env : ReconcileEnv} {track : Nat} {r : Reconciler} {log : List TranscriptSegment}
  {current : Option TranscriptSegment}

theorem Opens.revised (h : Opens env track r log current) : Revised track log :=
  ⟨⟨current, h.session⟩, h.status, h.tracks⟩

theorem revise_drawn_le (env : ReconcileEnv) (r : Reconciler) : r.drawn ≤ (r.revise env).drawn := by
  unfold revise
  split
  · exact Nat.le_succ _
  · exact Nat.le_refl _

/-- A new revision opens a record under a fresh UUID or continues the open one. -/
theorem Opens.revise_cases (h : Opens env track r log current) :
    (current = none ∧ r.revise env =
      { r with id := uuid (env.entropy r.drawn), drawn := r.drawn + 1, revision := 1 }) ∨
    (∃ s n, current = some s ∧ n < r.drawn ∧ s.segmentId = uuid (env.entropy n) ∧
      r.revise env = { r with id := s.segmentId, revision := s.revision + 1 }) := by
  cases hCurrent : current with
  | none => exact Or.inl ⟨rfl, by rw [revise, if_pos (h.none_id hCurrent)]⟩
  | some s =>
    obtain ⟨hId, hRevision⟩ := h.some_id s hCurrent
    obtain ⟨hLatest, -⟩ := h.session.current_latest hCurrent
    obtain ⟨n, hn, hUuid⟩ := h.drawn s (revisions.latest_mem hLatest).1
    have hSome : r.id ≠ [] := by
      rw [hId, hUuid]
      exact uuid_ne_nil _
    exact Or.inr ⟨s, n, rfl, hn, hUuid, by rw [revise, if_neg hSome, hRevision, ← hId]⟩

theorem Opens.revise_id (h : Opens env track r log current) :
    ∃ n < (r.revise env).drawn, (r.revise env).id = uuid (env.entropy n) := by
  rcases h.revise_cases with ⟨-, hRevise⟩ | ⟨s, n, -, hn, hUuid, hRevise⟩
  · rw [hRevise]
    exact ⟨r.drawn, Nat.lt_succ_self _, rfl⟩
  · rw [hRevise]
    exact ⟨n, hn, hUuid⟩

/-- The revision about to be handed out continues the session. -/
theorem Opens.extend (h : Opens env track r log current) (count : Nat) (tokens : List SpeechToken)
    (text : Bytes) (final : Bool) (status : ReconciliationStatus)
    (hDistinct : env.Distinct (r.revise env).drawn) :
    revisions.Session (log ++ [r.shown env count tokens text final status])
      (if final then none else some (r.shown env count tokens text final status)) := by
  rcases h.revise_cases with ⟨rfl, hRevise⟩ | ⟨s, n, rfl, hn, hUuid, hRevise⟩
  · refine Reading.Session.start _ h.session ?_ ?_
    · intro s hs hSame
      obtain ⟨n, hn, hUuid⟩ := h.drawn s hs
      have hEq : uuid (env.entropy n) = uuid (env.entropy r.drawn) := by
        rw [← hUuid]
        simpa [revisions, shown, segment, hRevise] using hSame
      rw [hRevise] at hDistinct
      have hIndex := hDistinct n (by simp; omega) r.drawn (by simp) hEq
      omega
    · simp [revisions, shown, segment, hRevise]
  · refine Reading.Session.revise _ h.session ?_ ?_
    · simp [revisions, shown, segment, hRevise]
    · simp [revisions, shown, segment, hRevise]

theorem settleFinal_drawn (r : Reconciler) (count : Nat) (text : Bytes) :
    (r.settleFinal count text).drawn = r.drawn := by
  unfold settleFinal
  split <;> rfl

theorem settleFinal_metadata (r : Reconciler) (count : Nat) (text : Bytes) :
    (r.settleFinal count text).metadata = r.metadata := by
  unfold settleFinal
  split <;> rfl

/-- A step keeps the protocol, and unless it fails the reconciler still holds the open record. -/
structure Advances (env : ReconcileEnv) (track drawn : Nat) (log : List TranscriptSegment)
    (o : ReconcileOutcome) : Prop where
  drawn_le : drawn ≤ o.state.drawn
  revised : env.Distinct o.state.drawn → Revised track (log ++ o.emitted)
  opens : env.Distinct o.state.drawn → o.error = none →
    ∃ current, Opens env track o.state (log ++ o.emitted) current

theorem Opens.advances (h : Opens env track r log current) {o : ReconcileOutcome}
    (hState : o.state.drawn = r.drawn) (hEmitted : o.emitted = [])
    (hOpens : o.error = none → Opens env track o.state log current) : Advances env track r.drawn log o where
  drawn_le := Nat.le_of_eq hState.symm
  revised := fun _ => by
    rw [hEmitted, List.append_nil]
    exact h.revised
  opens := fun _ hError => by
    rw [hEmitted, List.append_nil]
    exact ⟨current, hOpens hError⟩

theorem Advances.next {o : ReconcileOutcome} {f : Reconciler → ReconcileOutcome}
    {n : Nat} (h : Advances env track n log o) (hDrawn : ∀ s, s.drawn ≤ (f s).state.drawn)
    (hNext : ∀ current, o.error = none → Opens env track o.state (log ++ o.emitted) current →
      Advances env track o.state.drawn (log ++ o.emitted) (f o.state)) :
    Advances env track n log (o.next f) := by
  cases hError : o.error with
  | some e =>
    rw [Outcome.next_of_error hError]
    exact h
  | none =>
    rw [Outcome.next_of_none hError]
    have hMono : ∀ {n}, env.Distinct (f o.state).state.drawn → n = o.state.drawn → env.Distinct n :=
      fun hDistinct hn => hDistinct.mono (hn ▸ hDrawn o.state)
    refine ⟨Nat.le_trans h.drawn_le (hDrawn _), fun hDistinct => ?_, fun hDistinct hNone => ?_⟩
    · obtain ⟨current, hOpens⟩ := h.opens (hMono hDistinct rfl) hError
      simpa using (hNext current hError hOpens).revised hDistinct
    · obtain ⟨current, hOpens⟩ := h.opens (hMono hDistinct rfl) hError
      simpa using (hNext current hError hOpens).opens hDistinct hNone

theorem output_drawn_le (env : ReconcileEnv) (r : Reconciler) (count : Nat) (final : Bool)
    (status : ReconciliationStatus) {n : Nat} (hn : n ≤ r.drawn) :
    n ≤ (r.output env count final status).state.drawn := by
  refine Nat.le_trans hn ?_
  rcases output_cases env r count final status with ⟨-, hOut⟩ | ⟨-, -, e, hOut⟩ |
    ⟨-, tokens, text, -, ⟨e, hOut⟩ | hOut⟩
  · rw [hOut]
  · rw [hOut]
    exact revise_drawn_le env r
  · rw [hOut]
    exact revise_drawn_le env r
  · rw [hOut]
    cases final with
    | false => exact revise_drawn_le env r
    | true =>
      simp only [if_true]
      rw [settleFinal_drawn]
      exact revise_drawn_le env r

section Shown

variable {count : Nat} {tokens : List SpeechToken} {text : Bytes} {final : Bool}
  {status : ReconciliationStatus}

/-- The segment handed out belongs to the protocol. -/
theorem Opens.shown_revised (h : Opens env track r log current)
    (hDistinct : env.Distinct (r.revise env).drawn) (hSome : r.pending ≠ [])
    (hStatus : status = .pending ↔ final = false) :
    Revised track (log ++ [r.shown env count tokens text final status]) := by
  refine ⟨⟨_, h.extend count tokens text final status hDistinct⟩, ?_, ?_⟩
  · intro s hs
    rcases List.mem_append.mp hs with hOld | hNew
    · exact h.status s hOld
    · rw [List.mem_singleton.mp hNew]
      exact hStatus
  · intro s hs
    rcases List.mem_append.mp hs with hOld | hNew
    · exact h.tracks s hOld
    · rw [List.mem_singleton.mp hNew]
      simpa [shown, segment] using h.metadata hSome

theorem Opens.shown_drawn (h : Opens env track r log current) :
    ∀ s ∈ log ++ [r.shown env count tokens text final status],
      ∃ n < (r.revise env).drawn, s.segmentId = uuid (env.entropy n) := by
  intro s hs
  rcases List.mem_append.mp hs with hOld | hNew
  · obtain ⟨n, hn, hUuid⟩ := h.drawn s hOld
    exact ⟨n, Nat.lt_of_lt_of_le hn (revise_drawn_le env r), hUuid⟩
  · rw [List.mem_singleton.mp hNew]
    exact h.revise_id

theorem Opens.handedOut (h : Opens env track r log current)
    (hDistinct : env.Distinct (r.revise env).drawn) (hSome : r.pending ≠ [])
    (hStatus : status = .pending ↔ false = false) :
    Opens env track (r.handedOut env) (log ++ [r.shown env count tokens text false status])
      (some (r.shown env count tokens text false status)) where
  session := h.extend count tokens text false status hDistinct
  none_id := nofun
  some_id := by
    rintro s hs
    cases hs
    exact ⟨rfl, rfl⟩
  idle := fun hNil => absurd ((handedOut_pending env r).symm.trans hNil) hSome
  drawn := h.shown_drawn
  status := (h.shown_revised hDistinct hSome hStatus).status
  tracks := (h.shown_revised hDistinct hSome hStatus).tracks
  metadata := fun _ => by
    have hTrack := h.metadata hSome
    rwa [← revise_metadata env r] at hTrack

theorem Opens.settleFinal (h : Opens env track r log current)
    (hDistinct : env.Distinct (r.revise env).drawn) (hSome : r.pending ≠ [])
    (hStatus : status = .pending ↔ true = false) :
    Opens env track ((r.handedOut env).settleFinal count text)
      (log ++ [r.shown env count tokens text true status]) none where
  session := h.extend count tokens text true status hDistinct
  none_id := fun _ => rfl
  some_id := by
    intro s hs
    cases hs
  idle := fun _ => rfl
  drawn := by
    rw [settleFinal_drawn]
    exact h.shown_drawn
  status := (h.shown_revised hDistinct hSome hStatus).status
  tracks := (h.shown_revised hDistinct hSome hStatus).tracks
  metadata := fun _ => by
    rw [settleFinal_metadata]
    have hTrack := h.metadata hSome
    rwa [← revise_metadata env r] at hTrack

end Shown

theorem Opens.output (h : Opens env track r log current) (count : Nat) (final : Bool)
    (status : ReconciliationStatus) (hCount : count ≤ r.pending.length)
    (hStatus : status = .pending ↔ final = false) :
    Advances env track r.drawn log (r.output env count final status) := by
  have hDrawn := output_drawn_le env r count final status (Nat.le_refl _)
  rcases output_cases env r count final status with ⟨-, hOut⟩ | ⟨-, -, e, hOut⟩ |
    ⟨hZero, tokens, text, -, ⟨e, hOut⟩ | hOut⟩
  · rw [hOut]
    exact h.advances rfl rfl fun _ => h
  · rw [hOut] at hDrawn ⊢
    exact ⟨hDrawn, fun _ => by simpa using h.revised, fun _ hNone => by cases hNone⟩
  · rw [hOut] at hDrawn ⊢
    have hSome : r.pending ≠ [] := by
      rintro hNil
      rw [hNil, List.length_nil] at hCount
      omega
    exact ⟨hDrawn, fun hDistinct => h.shown_revised hDistinct hSome hStatus,
      fun _ hNone => by cases hNone⟩
  · rw [hOut] at hDrawn ⊢
    have hSome : r.pending ≠ [] := by
      rintro hNil
      rw [hNil, List.length_nil] at hCount
      omega
    cases final with
    | false =>
      exact ⟨hDrawn, fun hDistinct => h.shown_revised hDistinct hSome hStatus,
        fun hDistinct _ => ⟨_, h.handedOut hDistinct hSome hStatus⟩⟩
    | true =>
      have hSame : ((r.handedOut env).settleFinal count text).drawn = (r.revise env).drawn :=
        settleFinal_drawn _ _ _
      refine ⟨hDrawn, fun hDistinct => ?_, fun hDistinct _ => ⟨none, ?_⟩⟩
      · exact h.shown_revised (hDistinct.mono (Nat.le_of_eq hSame.symm)) hSome hStatus
      · exact h.settleFinal (hDistinct.mono (Nat.le_of_eq hSame.symm)) hSome hStatus

end Reconciler

theorem stableWalk_le (overlap : Nat) (cutoff : Int) (tokens : List SpeechToken) (b : Boundary)
    (h : b.safe ≤ b.stable) :
    (stableWalk overlap cutoff tokens b).safe ≤ b.stable + tokens.length := by
  induction tokens generalizing b with
  | nil => simpa [stableWalk] using h
  | cons token tokens ih =>
    rw [stableWalk]
    split
    · rw [List.length_cons]
      omega
    · refine Nat.le_trans (ih _ ?_) ?_
      · dsimp only
        split <;> omega
      · rw [List.length_cons]
        dsimp only
        omega

theorem stableBoundary_le (pending : List SpeechToken) (overlap : Nat) (cutoff : Int) :
    stableBoundary pending overlap cutoff ≤ pending.length := by
  have hSafe := stableWalk_le overlap cutoff pending default (Nat.le_refl 0)
  rw [show (default : Boundary).stable = 0 from rfl, Nat.zero_add] at hSafe
  unfold stableBoundary
  dsimp only
  split
  · split
    · exact Nat.le_trans (Nat.min_le_left _ _) hSafe
    · exact hSafe
  · exact hSafe

namespace Reconciler

variable {env : ReconcileEnv} {track : Nat} {r : Reconciler} {log : List TranscriptSegment}
  {current : Option TranscriptSegment}

theorem next_drawn_le {o : ReconcileOutcome} {f : Reconciler → ReconcileOutcome} {n : Nat}
    (hFirst : n ≤ o.state.drawn) (hNext : ∀ s, s.drawn ≤ (f s).state.drawn) :
    n ≤ (o.next f).state.drawn := by
  cases hError : o.error with
  | some e =>
    rw [Outcome.next_of_error hError]
    exact hFirst
  | none =>
    rw [Outcome.next_of_none hError]
    exact Nat.le_trans hFirst (hNext _)

theorem holdTail_drawn_le (env : ReconcileEnv) (h : SpeechHypothesis) (status : ReconciliationStatus)
    (r : Reconciler) : r.drawn ≤ (r.holdTail env h status).state.drawn := by
  unfold Reconciler.holdTail
  refine next_drawn_le ?_ fun _ => Nat.le_refl _
  exact output_drawn_le env _ _ _ _ (Nat.le_refl _)

theorem settle_drawn_le (env : ReconcileEnv) (h : SpeechHypothesis) (overlap : Nat)
    (c : Collected) (join : Join) (r : Reconciler) :
    r.drawn ≤ (r.settle env h overlap c join).state.drawn := by
  unfold Reconciler.settle
  dsimp only
  split
  · exact Nat.le_refl _
  · split
    · exact Nat.le_refl _
    · refine next_drawn_le ?_ (holdTail_drawn_le env h _)
      exact output_drawn_le env _ _ _ _ (Nat.le_refl _)

theorem applyJoin_drawn_le (env : ReconcileEnv) (r : Reconciler) (join : Join) :
    r.drawn ≤ (r.applyJoin env join).state.drawn := by
  cases join with
  | start => exact Nat.le_refl _
  | flush => exact next_drawn_le (output_drawn_le env r _ _ _ (Nat.le_refl _)) fun _ => Nat.le_refl _
  | aligned merged => exact Nat.le_refl _
  | unresolved => exact output_drawn_le env r _ _ _ (Nat.le_refl _)

theorem Opens.holdTail (hOpens : Opens env track r log current) (h : SpeechHypothesis)
    (status : ReconciliationStatus) : Advances env track r.drawn log (r.holdTail env h status) := by
  have hSame : Opens env track
      { r with uncertain := r.pending != [] && status == ReconciliationStatus.unresolved } log current :=
    { hOpens with }
  unfold Reconciler.holdTail
  dsimp only
  have hOut := hSame.output r.pending.length false .pending (Nat.le_refl _) (by simp)
  refine Advances.next hOut (fun _ => Nat.le_refl _) ?_
  intro current' _ hNext
  exact hNext.advances rfl rfl fun _ => { hNext with }

theorem Opens.settle (hOpens : Opens env track r log current) (h : SpeechHypothesis) (overlap : Nat)
    {c : Collected} {join : Join} (hIdle : join.tokens c.fresh = [] → current = none)
    (hTrack : join.tokens c.fresh ≠ [] → c.metadata.trackId = track) :
    Advances env track r.drawn log (r.settle env h overlap c join) := by
  have hReplaced : Opens env track { r with pending := join.tokens c.fresh, metadata := c.metadata }
      log current :=
    { hOpens with idle := hIdle, metadata := hTrack }
  unfold Reconciler.settle
  dsimp only
  split
  · exact hOpens.advances rfl rfl fun hNone => by cases hNone
  · split
    · exact hOpens.advances rfl rfl fun hNone => by cases hNone
    · refine Advances.next (hReplaced.output _ _ _ (stableBoundary_le _ _ _) ?_)
        (holdTail_drawn_le env h _) fun current' _ hNext => hNext.holdTail h _
      cases join <;> split <;> simp [Join.status]

theorem Opens.applyJoin (hOpens : Opens env track r log current) (join : Join) :
    Advances env track r.drawn log (r.applyJoin env join) := by
  cases join with
  | start => exact hOpens.advances rfl rfl fun _ => hOpens
  | aligned merged => exact hOpens.advances rfl rfl fun _ => hOpens
  | flush =>
    have hStatus : r.flushStatus = .pending ↔ true = false := by
      unfold flushStatus
      split <;> simp
    rw [Reconciler.applyJoin]
    refine Advances.next (hOpens.output _ _ _ (Nat.le_refl _) hStatus) (fun _ => Nat.le_refl _) ?_
    intro current' _ hNext
    exact hNext.advances rfl rfl fun _ => { hNext with }
  | unresolved => exact hOpens.output _ _ _ (Nat.le_refl _) (by simp)

/-- Unless the join is aligned, nothing is pending when the new window takes over. -/
theorem applyJoin_pending {h : SpeechHypothesis} {c : Collected}
    (hOk : (r.applyJoin env (r.joinOf h c)).error = none) :
    (∃ merged, r.joinOf h c = .aligned merged) ∨
      (r.applyJoin env (r.joinOf h c)).state.pending = [] := by
  cases hKind : r.joinOf h c with
  | start => exact Or.inr (joinOf_start hKind)
  | aligned merged => exact Or.inl ⟨merged, rfl⟩
  | flush =>
    rw [hKind] at hOk
    obtain ⟨hOut, -⟩ := Outcome.next_error_none hOk
    refine Or.inr ?_
    rw [Reconciler.applyJoin, Outcome.next_of_none hOut]
    simpa using output_pending hOut
  | unresolved =>
    rw [hKind] at hOk
    refine Or.inr ?_
    simpa [Reconciler.applyJoin] using output_pending hOk

theorem joinOf_tokens {h : SpeechHypothesis} {c : Collected}
    (hSome : (r.joinOf h c).tokens c.fresh ≠ []) : c.fresh ≠ [] := by
  cases hKind : r.joinOf h c with
  | aligned merged => exact (joinOf_aligned_ne_nil hKind).1
  | start | flush | unresolved =>
    rw [hKind] at hSome
    exact hSome

theorem Opens.reconcile {h : SpeechHypothesis} (hOpens : Opens env h.trackId r log current)
    (overlap : Nat) : Advances env h.trackId r.drawn log (r.reconcile env h overlap) := by
  unfold Reconciler.reconcile
  split
  · exact hOpens.advances rfl rfl fun hNone => by cases hNone
  · split
    · exact hOpens.advances rfl rfl fun hNone => by cases hNone
    · split
      · exact hOpens.advances rfl rfl fun hNone => by cases hNone
      · split
        · exact hOpens.advances rfl rfl fun hNone => by cases hNone
        · rename_i c hCollect
          have hMeta := (collect_ok hCollect).2
          refine Advances.next (hOpens.applyJoin _) (settle_drawn_le env h overlap c _) ?_
          intro current' hOk hNext
          refine hNext.settle h overlap (fun hNil => ?_) fun hSome => hMeta (joinOf_tokens hSome)
          rcases applyJoin_pending hOk with ⟨merged, hJoin⟩ | hPending
          · rw [hJoin] at hNil
            exact absurd hNil (joinOf_aligned_ne_nil hJoin).2
          · exact hNext.idle hPending

end Reconciler

inductive ReconcileCall
  | accept (h : SpeechHypothesis) (overlap : Nat)
  | finish

namespace Reconciler

variable {env : ReconcileEnv} {r : Reconciler} {log : List TranscriptSegment}

def call (env : ReconcileEnv) (r : Reconciler) : ReconcileCall → ReconcileOutcome
  | .accept h overlap => r.accept env h overlap
  | .finish => r.finish env

/-- The protocol between two calls. Before its first window the reconciler has said nothing
and may still take any track. -/
structure Obeys (env : ReconcileEnv) (r : Reconciler) (log : List TranscriptSegment) (track : Nat) :
    Prop where
  revised : Revised track log
  track_eq : r.window ≠ 0 → r.track = track
  live : r.closed = false → ∃ current, Opens env track r log current
  unstarted : r.closed = false → r.window = 0 → log = [] ∧ r.pending = []

theorem Opens.initial (env : ReconcileEnv) (track : Nat) :
    Opens env track Reconciler.initial [] none where
  session := .empty
  none_id := fun _ => rfl
  some_id := by simp
  idle := fun _ => rfl
  drawn := by simp
  status := by simp
  tracks := by simp
  metadata := fun hSome => absurd rfl hSome

theorem Obeys.initial (env : ReconcileEnv) : Obeys env Reconciler.initial [] 0 where
  revised := (Opens.initial env 0).revised
  track_eq := fun hSome => absurd rfl hSome
  live := fun _ => ⟨none, Opens.initial env 0⟩
  unstarted := fun _ _ => ⟨rfl, rfl⟩

/-- A hypothesis that does not change the track finds the reconciler on its track. -/
theorem Obeys.opens {track : Nat} (hObeys : Obeys env r log track) {h : SpeechHypothesis}
    (hOpen : r.closed = false) (hTrack : r.trackChanged h = false) :
    ∃ current, Opens env h.trackId r log current := by
  obtain ⟨current, hOpens⟩ := hObeys.live hOpen
  by_cases hWindow : r.window = 0
  · obtain ⟨rfl, hPending⟩ := hObeys.unstarted hOpen hWindow
    exact ⟨current, { hOpens with
      tracks := by simp
      metadata := fun hSome => absurd hPending hSome }⟩
  · have hSame : track = h.trackId := by
      have hCurrent := hObeys.track_eq hWindow
      simp only [trackChanged, Bool.and_eq_false_iff, bne_eq_false_iff_eq] at hTrack
      rcases hTrack with hZero | hEq
      · exact absurd hZero hWindow
      · exact hCurrent.symm.trans hEq.symm
    rw [← hSame]
    exact ⟨current, hOpens⟩

theorem Obeys.of_closed {track : Nat} (hRevised : Revised track log)
    (hTrack : r.window ≠ 0 → r.track = track) (hClosed : r.closed = true) :
    Obeys env r log track where
  revised := hRevised
  track_eq := hTrack
  live := fun hOpen => absurd (hClosed.symm.trans hOpen) (by decide)
  unstarted := fun hOpen => absurd (hClosed.symm.trans hOpen) (by decide)

theorem accept_drawn_le (env : ReconcileEnv) (r : Reconciler) (h : SpeechHypothesis) (overlap : Nat) :
    r.drawn ≤ (r.accept env h overlap).state.drawn := by
  have hReconcile : r.drawn ≤ (r.reconcile env h overlap).state.drawn := by
    unfold Reconciler.reconcile
    split
    · exact Nat.le_refl _
    · split
      · exact Nat.le_refl _
      · split
        · exact Nat.le_refl _
        · split
          · exact Nat.le_refl _
          · exact next_drawn_le (applyJoin_drawn_le env r _) (settle_drawn_le env h overlap _ _)
  unfold Reconciler.accept
  split
  · exact Nat.le_refl _
  · dsimp only
    split <;> exact hReconcile

theorem Obeys.accept {track : Nat} (hObeys : Obeys env r log track) (h : SpeechHypothesis)
    (overlap : Nat) (hDistinct : env.Distinct (r.accept env h overlap).state.drawn) :
    ∃ track, Obeys env (r.accept env h overlap).state (log ++ (r.accept env h overlap).emitted)
      track := by
  unfold Reconciler.accept at hDistinct ⊢
  cases hClosed : r.closed with
  | true => exact ⟨track, by simpa using hObeys⟩
  | false =>
    simp only [hClosed, Bool.false_eq_true, if_false] at hDistinct ⊢
    cases hTrack : r.trackChanged h with
    | true =>
      have hOut : r.reconcile env h overlap =
          ⟨r, [], some (.failure ⟨.invalidArgument, "reconciliation track changed"⟩)⟩ := by
        rw [Reconciler.reconcile, if_pos hTrack]
      rw [hOut]
      refine ⟨track, Obeys.of_closed ?_ hObeys.track_eq rfl⟩
      simpa using hObeys.revised
    | false =>
      obtain ⟨current, hOpens⟩ := hObeys.opens hClosed hTrack
      have hAdvances := hOpens.reconcile overlap
      have hTurned := reconcile_turned env r h overlap
      refine ⟨h.trackId, ?_⟩
      cases hError : (r.reconcile env h overlap).error with
      | some e =>
        simp only [hError, Option.isSome_some, if_true] at hDistinct ⊢
        obtain ⟨hWindow, hSame⟩ := hTurned.failed (by simp [hError])
        refine Obeys.of_closed (hAdvances.revised hDistinct) (fun hSome => ?_) rfl
        simp only [trackChanged, Bool.and_eq_false_iff, bne_eq_false_iff_eq] at hTrack
        rcases hTrack with hZero | hEq
        · exact absurd (hWindow.trans hZero) hSome
        · exact hSame.trans hEq.symm
      | none =>
        simp only [hError, Option.isSome_none, Bool.false_eq_true, if_false] at hDistinct ⊢
        obtain ⟨hWindow, hSame, -⟩ := hTurned.done hError
        exact ⟨hAdvances.revised hDistinct, fun _ => hSame, fun _ => hAdvances.opens hDistinct hError,
          fun _ hZero => absurd (hWindow.symm.trans hZero) (Nat.succ_ne_zero _)⟩

theorem flushStatus_ne_pending (r : Reconciler) : r.flushStatus = .pending ↔ true = false := by
  unfold flushStatus
  split <;> simp

theorem Opens.finish {track : Nat} {current : Option TranscriptSegment}
    (hOpens : Opens env track r log current) (hOpen : r.closed = false) :
    Advances env track r.drawn log (r.finish env) := by
  have hSame : Opens env track { r with closed := true } log current := { hOpens with }
  rw [Reconciler.finish, if_neg (by simp [hOpen])]
  exact hSame.output _ _ _ (Nat.le_refl _) r.flushStatus_ne_pending

theorem Obeys.finish {track : Nat} (hObeys : Obeys env r log track)
    (hDistinct : env.Distinct (r.finish env).state.drawn) :
    Obeys env (r.finish env).state (log ++ (r.finish env).emitted) track := by
  cases hClosed : r.closed with
  | true =>
    rw [Reconciler.finish, if_pos hClosed]
    simpa using hObeys
  | false =>
    obtain ⟨current, hOpens⟩ := hObeys.live hClosed
    have hRevised := (hOpens.finish hClosed).revised hDistinct
    obtain ⟨hShut, hWindow, hTrack⟩ :=
      output_frame env { r with closed := true } r.pending.length true r.flushStatus
    rw [Reconciler.finish, if_neg (by simp [hClosed])] at hRevised ⊢
    refine Obeys.of_closed hRevised (fun hSome => hTrack.trans (hObeys.track_eq ?_)) hShut
    rwa [hWindow] at hSome

/-- A successful `finish` leaves no record open. -/
theorem Obeys.finish_done {track : Nat} (hObeys : Obeys env r log track)
    (hDistinct : env.Distinct (r.finish env).state.drawn) (hOk : (r.finish env).error = none) :
    revisions.Session (log ++ (r.finish env).emitted) none := by
  have hOpen : r.closed = false := by
    rw [← Bool.not_eq_true]
    intro hClosed
    rw [Reconciler.finish, if_pos hClosed] at hOk
    cases hOk
  obtain ⟨current, hOpens⟩ := hObeys.live hOpen
  obtain ⟨current', hEnd⟩ := (hOpens.finish hOpen).opens hDistinct hOk
  have hPending : (r.finish env).state.pending = [] := by
    rw [Reconciler.finish, if_neg (by simp [hOpen])] at hOk ⊢
    simpa using output_pending hOk
  have hSession := hEnd.session
  rwa [hEnd.idle hPending] at hSession

theorem call_drawn_le (env : ReconcileEnv) (r : Reconciler) (c : ReconcileCall) :
    r.drawn ≤ (r.call env c).state.drawn := by
  cases c with
  | accept h overlap => exact accept_drawn_le env r h overlap
  | finish =>
    rw [call, Reconciler.finish]
    split
    · exact Nat.le_refl _
    · exact output_drawn_le env _ _ _ _ (Nat.le_refl _)

theorem run_drawn_le (env : ReconcileEnv) (calls : List ReconcileCall) (r : Reconciler) :
    r.drawn ≤ (runThrough (Reconciler.call env) r calls).1.drawn := by
  induction calls generalizing r with
  | nil => exact Nat.le_refl _
  | cons c calls ih => exact Nat.le_trans (call_drawn_le env r c) (ih _)

/-- The protocol of a whole run, for as long as the UUIDs drawn in it differ. -/
theorem Obeys.run (env : ReconcileEnv) (calls : List ReconcileCall) :
    env.Distinct (runThrough (Reconciler.call env) Reconciler.initial calls).1.drawn →
      ∃ track, Obeys env (runThrough (Reconciler.call env) Reconciler.initial calls).1
        (Emitting.handed (runThrough (Reconciler.call env) Reconciler.initial calls).2) track := by
  have hKeeps := runThrough_keeps (Reconciler.call env)
    (P := fun r log => env.Distinct r.drawn → ∃ track, Obeys env r log track) ?_ calls
    Reconciler.initial [] (fun _ => ⟨0, Obeys.initial env⟩)
  · simpa using hKeeps
  · intro r c log hObeys hDistinct
    obtain ⟨track, hBefore⟩ := hObeys (hDistinct.mono (call_drawn_le env r c))
    cases c with
    | accept h overlap => exact hBefore.accept h overlap hDistinct
    | finish => exact ⟨track, hBefore.finish hDistinct⟩

theorem call_dead (env : ReconcileEnv) (r : Reconciler) (c : ReconcileCall) (hClosed : r.closed = true) :
    (r.call env c).state.closed = true ∧ (r.call env c).error.isSome = true ∧
      (r.call env c).emitted = [] := by
  cases c with
  | accept h overlap =>
    rw [call, Reconciler.accept, if_pos hClosed]
    exact ⟨hClosed, rfl, rfl⟩
  | finish =>
    rw [call, Reconciler.finish, if_pos hClosed]
    exact ⟨hClosed, rfl, rfl⟩

theorem finish_closed (env : ReconcileEnv) (r : Reconciler) : (r.finish env).state.closed = true := by
  rw [Reconciler.finish]
  split
  · assumption
  · exact (output_frame env _ _ _ _).1

theorem call_fails (env : ReconcileEnv) (r : Reconciler) (c : ReconcileCall)
    (hError : (r.call env c).error.isSome = true) : (r.call env c).state.closed = true := by
  cases c with
  | finish => exact finish_closed env r
  | accept h overlap =>
    rw [call, Reconciler.accept] at hError ⊢
    split
    · assumption
    · rename_i hOpen
      rw [if_neg hOpen] at hError
      dsimp only at hError ⊢
      split at hError
      · rename_i hFail
        rw [if_pos hFail]
      · rename_i hDone
        exact absurd hError hDone

end Reconciler

/-- The revisions of each segment count from one, a final one is the last, `PENDING` marks
the others, at most one segment is open at any time, and each emission passes the check
of the registry against any part of the latest revisions before it. -/
structure RevisionProtocol (segments : List TranscriptSegment) : Prop where
  numbered : ∀ id, (revisions.of segments id).map TranscriptSegment.revision =
    List.range' 1 (revisions.of segments id).length
  finals_last : segments.Pairwise fun a b => a.final = true → b.segmentId ≠ a.segmentId
  status : ∀ s ∈ segments, s.reconciliation = .pending ↔ s.final = false
  one_open : ∀ before after a b, segments = before ++ after → revisions.Unfinished before a →
    revisions.Unfinished before b → a = b
  registry : ∀ before s after, segments = before ++ s :: after → ∀ kept : List TranscriptSegment,
    (∀ prior ∈ kept, prior.segmentId = s.segmentId → prior ∈ revisions.lastOfEach before) →
      revisionValid kept s = true

theorem Revised.protocol {track : Nat} {log : List TranscriptSegment} (h : Revised track log) :
    RevisionProtocol log := by
  obtain ⟨⟨current, hSession⟩, hStatus, hTracks⟩ := h
  refine ⟨hSession.revisions, hSession.finals_last, hStatus, ?_, ?_⟩
  · rintro before after a b rfl ha hb
    obtain ⟨o, hBefore⟩ := hSession.before
    obtain ⟨x, hx, rfl⟩ := hBefore.unfinished_current ha
    obtain ⟨y, hy, rfl⟩ := hBefore.unfinished_current hb
    cases hx.symm.trans hy
    rfl
  · rintro before s after rfl kept hKept
    rw [List.append_cons] at hSession
    obtain ⟨o, hBefore⟩ := hSession.before
    refine revisionValid_of_continues hKept hBefore.continues_last ?_
    intro prior hPrior
    rw [hTracks prior (by simp [hPrior]), hTracks s (by simp)]

theorem transcript_revision_protocol (env : ReconcileEnv) (calls : List ReconcileCall)
    (hDistinct : env.Distinct (runThrough (Reconciler.call env) Reconciler.initial calls).1.drawn) :
    RevisionProtocol (handed (runThrough (Reconciler.call env) Reconciler.initial calls).2) ∧
    (∃ track, (∀ s ∈ handed (runThrough (Reconciler.call env) Reconciler.initial calls).2,
        s.trackId = track) ∧
      ((runThrough (Reconciler.call env) Reconciler.initial calls).1.window ≠ 0 →
        (runThrough (Reconciler.call env) Reconciler.initial calls).1.track = track)) ∧
    (runThrough (Reconciler.call env) Reconciler.initial calls).2.Pairwise (fun earlier later =>
      earlier.error.isSome = true → later.error.isSome = true ∧ later.emitted = []) ∧
    (∀ before after, calls = before ++ .finish :: after →
      ((runThrough (Reconciler.call env) Reconciler.initial before).1.finish env).error = none →
        ∀ id, ¬revisions.Unfinished
          (handed (runThrough (Reconciler.call env) Reconciler.initial calls).2) id) := by
  obtain ⟨track, hObeys⟩ := Reconciler.Obeys.run env calls hDistinct
  refine ⟨hObeys.revised.protocol, ⟨track, hObeys.revised.tracks, hObeys.track_eq⟩,
    runThrough_silent (Reconciler.call_dead env) (Reconciler.call_fails env) calls _, ?_⟩
  rintro before after rfl hOk id hOpen
  rw [runThrough_append] at hDistinct hOpen
  have hFinish : env.Distinct
      ((runThrough (Reconciler.call env) Reconciler.initial before).1.finish env).state.drawn :=
    hDistinct.mono (Reconciler.run_drawn_le env after _)
  obtain ⟨track', hBefore⟩ := Reconciler.Obeys.run env before
    (hFinish.mono (Reconciler.call_drawn_le env _ .finish))
  have hSession := hBefore.finish_done hFinish hOk
  have hSilent : handed (runThrough (Reconciler.call env)
      ((runThrough (Reconciler.call env) Reconciler.initial before).1.finish env).state after).2 = [] :=
    List.flatMap_eq_nil_iff.mpr fun o ho =>
      (runThrough_dead (Reconciler.call_dead env) after _ (Reconciler.finish_closed env _) o ho).2
  obtain ⟨b, hNone, -⟩ := hSession.unfinished_current (k := id) (by
    simpa [runThrough, Reconciler.call, hSilent] using hOpen)
  cases hNone

theorem transcript_revision_protocol_overlap :
    RevisionProtocol (handed (runThrough (Reconciler.call quietEnv) Reconciler.initial
      (overlapping.map (fun call => .accept call.1 call.2) ++ [.finish])).2) :=
  (transcript_revision_protocol quietEnv _ (by unfold ReconcileEnv.Distinct; decide +kernel)).1

end GrpcAsr.Media
