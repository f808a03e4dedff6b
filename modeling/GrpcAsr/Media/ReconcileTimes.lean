import Mathlib.Data.List.Infix
import GrpcAsr.Media.JoinEvidence

/-!
# The range of reconciliation times

Every signed 64-bit value that a call of the reconciler computes is listed beside the
function that computes it. A window is checked on its own, so its times lie close to
`±2 ^ 62`; the one computation that mixes two windows is the gap `timed_match` takes
between a pending word and an equal new one.
-/

namespace GrpcAsr.Media

open Emitting Dealing

set_option autoImplicit false

def InInt64 (value : Int) : Prop := -2 ^ 63 ≤ value ∧ value < 2 ^ 63

instance (value : Int) : Decidable (InInt64 value) := inferInstanceAs (Decidable (_ ∧ _))

def timedMatchTimes (a b : SpeechToken) : List Int := [max a.start b.start - min a.end b.end]

/-- One entry of the table: unequal keys or a failed time match skip what is behind them. -/
def pairTimes (endTime : Int) (old fresh : SpeechToken) : List Int :=
  if tokenKey old ≠ tokenKey fresh then []
  else if tokenKey old = [] then [endTime + tolerance]
  else timedMatchTimes old fresh ++ (if timedMatch old fresh then [endTime + tolerance] else [])

def anchorTimes (old fresh : List SpeechToken) (endTime : Int) : List Int :=
  old.reverse.flatMap fun a => fresh.reverse.flatMap fun b => pairTimes endTime a b

def leastStart (tokens : List SpeechToken) : Int :=
  tokens.foldl (fun least token => min least token.start) (2 ^ 63 - 1)

def greatestEnd (tokens : List SpeechToken) : Int :=
  tokens.foldl (fun greatest token => max greatest token.end) (-2 ^ 63)

/-- The running bounds of the tokens that `output` goes through. -/
def outputTimes (source : List SpeechToken) : List Int :=
  source.inits.flatMap fun seen => [leastStart seen, greatestEnd seen]

namespace SpeechHypothesis

def startTimes (h : SpeechHypothesis) : List Int :=
  if h.presentationTimeUs.isSome then [] else [micros h.firstSample]

def clampTimes (h : SpeechHypothesis) : List Int :=
  h.lexical.flatMap fun token =>
    if token.outside h.windowStart h.windowEnd then
      [clamp token.start h.windowStart h.windowEnd, clamp token.end h.windowStart h.windowEnd]
    else []

def windowTimes (h : SpeechHypothesis) : List Int :=
  [micros h.sampleCount, h.windowEnd] ++ h.clampTimes

end SpeechHypothesis

namespace Reconciler

/-- A window that `accept` compares with the pending tail by `anchor`. -/
def anchors (r : Reconciler) (h : SpeechHypothesis) (c : Collected) : Bool :=
  r.pending != [] && decide (h.firstSample < h.firstNewSample) && !r.beyondPrevious c && c.fresh != []

/-- The conditions of `joinSafe` in front of the one on the time of the old tail. -/
def tailCompared (r : Reconciler) (c : Collected) (found : Match) : Bool :=
  let aEnd := found.oldStart + found.run.count
  let bEnd := found.newStart + found.run.count
  2 ≤ found.run.score && !found.ambiguous && c.fresh != [] && r.sameLanguage c &&
    (found.oldStart == 0 || found.newStart == 0 ||
      joinedKey (r.pending.take found.oldStart) == joinedKey (c.fresh.take found.newStart)) &&
    decide (aEnd < r.pending.length) && joinedKey (r.pending.drop aEnd) != [] &&
    (joinedKey (r.pending.drop aEnd)).isPrefixOf (joinedKey (c.fresh.drop bEnd))

def beyondTimes (r : Reconciler) (c : Collected) : List Int :=
  if r.pending = [] ∨ c.invalidTiming = true ∨ c.fresh = [] then [] else [r.endTime + tolerance]

def joinTimes (r : Reconciler) (h : SpeechHypothesis) (c : Collected) : List Int :=
  r.beyondTimes c ++
    (if r.anchors h c then
      anchorTimes r.pending c.fresh r.endTime ++
        (if r.tailCompared c (anchor r.pending c.fresh r.endTime) then [r.endTime - 500000] else [])
    else []) ++
    (match r.joinOf h c with
      | .flush | .unresolved => outputTimes r.pending
      | _ => [])

/-- The cutoff, and the two outputs behind it. -/
def settleTimes (h : SpeechHypothesis) (overlap : Nat) (pending : List SpeechToken) : List Int :=
  let cutoff := h.windowEnd - micros overlap
  let boundary := stableBoundary pending overlap cutoff
  [micros overlap, cutoff] ++ outputTimes (pending.take boundary) ++ outputTimes (pending.drop boundary)

def acceptTimes (r : Reconciler) (h : SpeechHypothesis) (overlap : Nat) : List Int :=
  if r.closed || r.trackChanged h || !r.windowValid h overlap then []
  else if !timestampValid h then h.startTimes
  else
    h.startTimes ++ h.windowTimes ++
      (match collect h with
        | .error _ => []
        | .ok c => r.joinTimes h c ++ settleTimes h overlap ((r.joinOf h c).tokens c.fresh))

/-- Every signed 64-bit value that a call can compute. -/
def callTimes (r : Reconciler) : ReconcileCall → List Int
  | .accept h overlap => r.acceptTimes h overlap
  | .finish => if r.closed then [] else outputTimes r.pending

end Reconciler

structure SpeechToken.Within (token : SpeechToken) (low high : Int) : Prop where
  low_le : low ≤ token.start
  ordered : token.start ≤ token.end
  le_high : token.end ≤ high

/-- Some window of at most thirty seconds within the timestamp limit holds the token. -/
def SpeechToken.Timed (token : SpeechToken) : Prop :=
  ∃ low, -2 ^ 62 ≤ low ∧ low ≤ 2 ^ 62 ∧ token.Within low (low + 30000000)

theorem SpeechToken.fit_within {token : SpeechToken} {low high : Int} (hWindow : low ≤ high)
    (hOrdered : token.start ≤ token.end) : (token.fit low high).Within low high := by
  have hClamp : ∀ value, low ≤ clamp value low high ∧ clamp value low high ≤ high := by
    intro value
    unfold clamp
    split
    · exact ⟨Int.le_refl low, hWindow⟩
    · split
      · exact ⟨hWindow, Int.le_refl high⟩
      · omega
  have hMono : clamp token.start low high ≤ clamp token.end low high := by
    unfold clamp
    split <;> split <;> (try split) <;> omega
  rw [SpeechToken.fit]
  split
  · exact ⟨(hClamp token.start).1, hMono, (hClamp token.end).2⟩
  · rename_i hInside
    simp only [SpeechToken.outside, Bool.or_eq_true, decide_eq_true_eq, not_or, not_lt] at hInside
    exact ⟨hInside.1, hOrdered, hInside.2⟩

theorem foldlM_keeps {α β : Type} {f : β → α → Except Failure β} {P : β → Prop}
    (hStep : ∀ c x c', f c x = .ok c' → P c → P c') {xs : List α} {c c' : β}
    (hOk : xs.foldlM f c = .ok c') (h : P c) : P c' := by
  induction xs generalizing c with
  | nil =>
    cases hOk
    exact h
  | cons x xs ih =>
    rw [List.foldlM_cons] at hOk
    obtain ⟨next, hFirst, hRest⟩ := bind_eq_ok hOk
    exact ih hRest (hStep c x next hFirst h)

def Collected.Fits (low high : Int) (c : Collected) : Prop := ∀ token ∈ c.fresh, token.Within low high

theorem collectToken_fits {low high : Int} (hWindow : low ≤ high) {c c' : Collected}
    {token : SpeechToken} (hOk : collectToken low high c token = .ok c') (h : c.Fits low high) :
    c'.Fits low high := by
  unfold collectToken at hOk
  split at hOk
  · cases hOk
    exact h
  · split at hOk
    · cases hOk
    · rename_i hLexical
      split at hOk
      · cases hOk
      · cases hOk
        intro fresh hFresh
        rcases List.mem_append.mp hFresh with hOld | hNew
        · exact h fresh hOld
        · rw [List.mem_singleton.mp hNew]
          apply SpeechToken.fit_within hWindow
          simp only [not_or, not_lt] at hLexical
          exact hLexical.2.2.2

theorem collectSegment_fits {h : SpeechHypothesis} (hWindow : h.windowStart ≤ h.windowEnd)
    {c c' : Collected} {segment : TranscriptSegment} (hOk : collectSegment h c segment = .ok c')
    (hFits : c.Fits h.windowStart h.windowEnd) : c'.Fits h.windowStart h.windowEnd := by
  unfold collectSegment at hOk
  split at hOk
  · cases hOk
  · dsimp only at hOk
    split at hOk
    · cases hOk
    · rename_i next hTokens
      split at hOk
      · cases hOk
      · cases hOk
        refine foldlM_keeps (fun _ _ _ hToken => collectToken_fits hWindow hToken) hTokens ?_
        split <;> exact hFits

/-- Every collected token is timed inside its window. -/
theorem collect_fits {h : SpeechHypothesis} (hWindow : h.windowStart ≤ h.windowEnd) {c : Collected}
    (hOk : collect h = .ok c) : c.Fits h.windowStart h.windowEnd :=
  foldlM_keeps (fun _ _ _ hSegment => collectSegment_fits hWindow hSegment) hOk
    fun _ hNone => nomatch hNone

theorem micros_nonneg (sample : Nat) : 0 ≤ micros sample := Int.natCast_nonneg _

theorem micros_le {sample limit : Nat} (h : sample ≤ limit) : micros sample ≤ micros limit := by
  unfold micros
  omega

theorem windowValid_bounds {r : Reconciler} {h : SpeechHypothesis} {overlap : Nat}
    (hValid : r.windowValid h overlap = true) :
    h.sampleCount ≤ 480000 ∧ h.firstSample ≤ 100000000000000 ∧ overlap < h.sampleCount := by
  simp only [Reconciler.windowValid, Bool.and_eq_true, decide_eq_true_eq] at hValid
  obtain ⟨⟨⟨⟨⟨⟨⟨⟨-, -⟩, hCount⟩, hFirst⟩, hOverlap⟩, -⟩, -⟩, -⟩, -⟩ := hValid
  exact ⟨hCount, hFirst, hOverlap⟩

/-- The window of a hypothesis that passed the checks. -/
structure SpeechHypothesis.Placed (h : SpeechHypothesis) : Prop where
  low_le : -2 ^ 62 ≤ h.windowStart
  le_high : h.windowStart ≤ 2 ^ 62
  forward : h.windowStart ≤ h.windowEnd
  brief : h.windowEnd ≤ h.windowStart + 30000000

theorem SpeechHypothesis.placed {r : Reconciler} {h : SpeechHypothesis} {overlap : Nat}
    (hValid : r.windowValid h overlap = true) (hTime : Reconciler.timestampValid h = true) :
    h.Placed := by
  obtain ⟨hCount, -, -⟩ := windowValid_bounds hValid
  have hLow := micros_nonneg h.sampleCount
  have hHigh : micros h.sampleCount ≤ 30000000 := micros_le hCount
  simp only [Reconciler.timestampValid, Bool.and_eq_true, decide_eq_true_eq] at hTime
  exact ⟨hTime.1, hTime.2, by rw [SpeechHypothesis.windowEnd]; omega,
    by rw [SpeechHypothesis.windowEnd]; omega⟩

theorem SpeechHypothesis.Placed.timed {h : SpeechHypothesis} (hPlaced : h.Placed) {token : SpeechToken}
    (hToken : token.Within h.windowStart h.windowEnd) : token.Timed :=
  ⟨h.windowStart, hPlaced.low_le, hPlaced.le_high, hToken.low_le, hToken.ordered,
    Int.le_trans hToken.le_high hPlaced.brief⟩

def AllInInt64 (values : List Int) : Prop := ∀ value ∈ values, InInt64 value

section Ranges

theorem allIn_append {xs ys : List Int} : AllInInt64 (xs ++ ys) ↔ AllInInt64 xs ∧ AllInInt64 ys :=
  List.forall_mem_append

theorem allIn_nil : AllInInt64 [] := fun _ hNone => nomatch hNone

theorem allIn_singleton {value : Int} : AllInInt64 [value] ↔ InInt64 value := List.forall_mem_singleton

theorem allIn_pair {a b : Int} : AllInInt64 [a, b] ↔ InInt64 a ∧ InInt64 b := by
  rw [AllInInt64, List.forall_mem_cons, List.forall_mem_singleton]

theorem allIn_flatMap {α : Type} {xs : List α} {f : α → List Int} :
    AllInInt64 (xs.flatMap f) ↔ ∀ x ∈ xs, AllInInt64 (f x) := by
  simp only [AllInInt64, List.mem_flatMap]
  constructor
  · intro h x hx value hValue
    exact h value ⟨x, hx, hValue⟩
  · rintro h value ⟨x, hx, hValue⟩
    exact h x hx value hValue

variable {h : SpeechHypothesis} {overlap : Nat} {r : Reconciler}

theorem startTimes_in (hValid : r.windowValid h overlap = true) : AllInInt64 h.startTimes := by
  obtain ⟨-, hFirst, -⟩ := windowValid_bounds hValid
  have hLow := micros_nonneg h.firstSample
  have hHigh : micros h.firstSample ≤ 6250000000000000 := micros_le hFirst
  rw [SpeechHypothesis.startTimes]
  split
  · exact allIn_nil
  · apply allIn_singleton.mpr
    constructor <;> omega

theorem clampTimes_in (hPlaced : h.Placed) : AllInInt64 h.clampTimes := by
  obtain ⟨hLow, hHigh, hForward, hBrief⟩ := hPlaced
  have hClamp : ∀ value, InInt64 (clamp value h.windowStart h.windowEnd) := by
    intro value
    unfold clamp
    split
    · constructor <;> omega
    · split <;> constructor <;> omega
  apply allIn_flatMap.mpr
  intro token _
  split
  · exact allIn_pair.mpr ⟨hClamp _, hClamp _⟩
  · exact allIn_nil

theorem windowTimes_in (hValid : r.windowValid h overlap = true) (hPlaced : h.Placed) :
    AllInInt64 h.windowTimes := by
  obtain ⟨hCount, -, -⟩ := windowValid_bounds hValid
  have hLength := micros_nonneg h.sampleCount
  have hLimit : micros h.sampleCount ≤ 30000000 := micros_le hCount
  obtain ⟨hLow, hHigh, hForward, hBrief⟩ := hPlaced
  apply allIn_append.mpr
  refine ⟨allIn_pair.mpr ⟨?_, ?_⟩, clampTimes_in ⟨hLow, hHigh, hForward, hBrief⟩⟩
  · constructor <;> omega
  · constructor <;> omega

theorem outputTimes_in {source : List SpeechToken} (hTimed : ∀ token ∈ source, token.Timed) :
    AllInInt64 (outputTimes source) := by
  apply allIn_flatMap.mpr
  intro seen hSeen
  have hSome : ∀ token ∈ seen, InInt64 token.start ∧ InInt64 token.end := by
    intro token hToken
    obtain ⟨low, hLow, hHigh, hFirst, hOrdered, hLast⟩ :=
      hTimed token (((List.mem_inits _ _).mp hSeen).subset hToken)
    constructor <;> constructor <;> omega
  apply allIn_pair.mpr
  constructor
  · apply List.foldlRecOn (motive := InInt64)
    · decide
    · intro least hLeast token hToken
      rcases Int.le_total least token.start with hLe | hLe
      · rwa [Int.min_eq_left hLe]
      · rw [Int.min_eq_right hLe]
        exact (hSome token hToken).1
  · apply List.foldlRecOn (motive := InInt64)
    · decide
    · intro greatest hGreatest token hToken
      rcases Int.le_total greatest token.end with hLe | hLe
      · rw [Int.max_eq_right hLe]
        exact (hSome token hToken).2
      · rwa [Int.max_eq_left hLe]

theorem settleTimes_in (hValid : r.windowValid h overlap = true) (hPlaced : h.Placed)
    {pending : List SpeechToken} (hTimed : ∀ token ∈ pending, token.Timed) :
    AllInInt64 (Reconciler.settleTimes h overlap pending) := by
  obtain ⟨hCount, -, hOverlap⟩ := windowValid_bounds hValid
  have hLength := micros_nonneg overlap
  have hLimit : micros overlap ≤ 30000000 := micros_le (Nat.le_of_lt (Nat.lt_of_lt_of_le hOverlap hCount))
  obtain ⟨hLow, hHigh, hForward, hBrief⟩ := hPlaced
  rw [Reconciler.settleTimes]
  refine allIn_append.mpr ⟨allIn_append.mpr ⟨allIn_pair.mpr ⟨?_, ?_⟩, ?_⟩, ?_⟩
  · constructor <;> omega
  · constructor <;> omega
  · exact outputTimes_in fun token hToken => hTimed token (List.mem_of_mem_take hToken)
  · exact outputTimes_in fun token hToken => hTimed token (List.mem_of_mem_drop hToken)

end Ranges

/-- Two words between which there are less than `2 ^ 63` microseconds. -/
def SpeechToken.Near (a b : SpeechToken) : Prop := a.start < b.end + 2 ^ 63 ∧ b.start < a.end + 2 ^ 63

theorem timedMatchTimes_iff {a b : SpeechToken} (ha : a.Timed) (hb : b.Timed) :
    AllInInt64 (timedMatchTimes a b) ↔ a.Near b := by
  obtain ⟨_, hLowA, hHighA, hFirstA, hOrderedA, hLastA⟩ := ha
  obtain ⟨_, hLowB, hHighB, hFirstB, hOrderedB, hLastB⟩ := hb
  rw [timedMatchTimes, allIn_singleton, InInt64, SpeechToken.Near]
  omega

def EndTimed (endTime : Int) : Prop := -2 ^ 62 ≤ endTime ∧ endTime ≤ 2 ^ 62 + 30000000

theorem EndTimed.shifted {endTime : Int} (h : EndTimed endTime) :
    InInt64 (endTime + tolerance) ∧ InInt64 (endTime - 500000) := by
  obtain ⟨hLow, hHigh⟩ := h
  simp only [InInt64, tolerance]
  omega

theorem pairTimes_iff {endTime : Int} (hEnd : EndTimed endTime) {old fresh : SpeechToken}
    (hOld : old.Timed) (hFresh : fresh.Timed) :
    AllInInt64 (pairTimes endTime old fresh) ↔
      (tokenKey old = tokenKey fresh → tokenKey old ≠ [] → old.Near fresh) := by
  have hLimit := allIn_singleton.mpr hEnd.shifted.1
  rw [pairTimes]
  split
  · rename_i hDiffer
    exact ⟨fun _ hSame => absurd hSame hDiffer, fun _ => allIn_nil⟩
  · rename_i hSame
    split
    · rename_i hSilent
      exact ⟨fun _ _ hSome => absurd hSilent hSome, fun _ => hLimit⟩
    · rename_i hSome
      have hRest : AllInInt64 (if timedMatch old fresh then [endTime + tolerance] else []) := by
        split
        · exact hLimit
        · exact allIn_nil
      rw [allIn_append, timedMatchTimes_iff hOld hFresh]
      constructor
      · intro hBoth _ _
        exact hBoth.1
      · intro hNear
        exact ⟨hNear (not_not.mp hSame) hSome, hRest⟩

theorem anchorTimes_iff {endTime : Int} (hEnd : EndTimed endTime) {old fresh : List SpeechToken}
    (hOld : ∀ token ∈ old, token.Timed) (hFresh : ∀ token ∈ fresh, token.Timed) :
    AllInInt64 (anchorTimes old fresh endTime) ↔ ∀ a ∈ old, ∀ b ∈ fresh,
      tokenKey a = tokenKey b → tokenKey a ≠ [] → a.Near b := by
  simp only [anchorTimes, allIn_flatMap, List.mem_reverse]
  constructor
  · intro hAll a ha b hb
    exact (pairTimes_iff hEnd (hOld a ha) (hFresh b hb)).mp (hAll a ha b hb)
  · intro hAll a ha b hb
    exact (pairTimes_iff hEnd (hOld a ha) (hFresh b hb)).mpr (hAll a ha b hb)

namespace Reconciler

/-- The words that `anchor` compares in a call are near each other. -/
def Near (r : Reconciler) : ReconcileCall → Prop
  | .finish => True
  | .accept h overlap => ∀ c, r.checked h overlap = some c → r.anchors h c = true →
      ∀ old ∈ r.pending, ∀ fresh ∈ c.fresh,
        tokenKey old = tokenKey fresh → tokenKey old ≠ [] → old.Near fresh

/-- An open reconciler holds times of windows that passed the checks. -/
structure Timely (r : Reconciler) : Prop where
  pending : ∀ token ∈ r.pending, token.Timed
  endTime : EndTimed r.endTime

theorem joinTimes_iff {r : Reconciler} (hTimely : r.Timely) (h : SpeechHypothesis) {c : Collected}
    (hFresh : ∀ token ∈ c.fresh, token.Timed) :
    AllInInt64 (r.joinTimes h c) ↔ (r.anchors h c = true → ∀ old ∈ r.pending, ∀ fresh ∈ c.fresh,
      tokenKey old = tokenKey fresh → tokenKey old ≠ [] → old.Near fresh) := by
  have hBeyond : AllInInt64 (r.beyondTimes c) := by
    rw [beyondTimes]
    split
    · exact allIn_nil
    · exact allIn_singleton.mpr hTimely.endTime.shifted.1
  have hOutput : AllInInt64 (match r.joinOf h c with
      | .flush | .unresolved => outputTimes r.pending
      | _ => []) := by
    split
    · exact outputTimes_in hTimely.pending
    · exact outputTimes_in hTimely.pending
    · exact allIn_nil
  have hTail : AllInInt64 (if r.tailCompared c (anchor r.pending c.fresh r.endTime)
      then [r.endTime - 500000] else []) := by
    split
    · exact allIn_singleton.mpr hTimely.endTime.shifted.2
    · exact allIn_nil
  rw [joinTimes, allIn_append, allIn_append]
  split
  · rename_i hAnchors
    rw [allIn_append, anchorTimes_iff hTimely.endTime hTimely.pending hFresh]
    constructor
    · intro hAll _
      exact hAll.1.2.1
    · intro hNear
      exact ⟨⟨hBeyond, hNear hAnchors, hTail⟩, hOutput⟩
  · rename_i hApart
    exact ⟨fun _ hAnchors => absurd hAnchors hApart, fun _ => ⟨⟨hBeyond, allIn_nil⟩, hOutput⟩⟩

theorem joinOf_mem {r : Reconciler} {h : SpeechHypothesis} {c : Collected} {token : SpeechToken}
    (hToken : token ∈ (r.joinOf h c).tokens c.fresh) : token ∈ r.pending ∨ token ∈ c.fresh := by
  cases hJoin : r.joinOf h c with
  | start | flush | unresolved =>
    rw [hJoin] at hToken
    exact Or.inr hToken
  | aligned merged =>
    obtain ⟨-, -, rfl⟩ := joinOf_merge hJoin
    rw [hJoin] at hToken
    rcases List.mem_append.mp hToken with hOld | hNew
    · exact Or.inl (List.mem_of_mem_take hOld)
    · exact Or.inr (List.mem_of_mem_drop hNew)

theorem accept_pending_mem {env : ReconcileEnv} {r : Reconciler} {h : SpeechHypothesis} {overlap : Nat}
    {c : Collected} (hOk : (r.accept env h overlap).error = none) (hCollect : collect h = .ok c)
    {token : SpeechToken} (hToken : token ∈ (r.accept env h overlap).state.pending) :
    token ∈ r.pending ∨ token ∈ c.fresh := by
  obtain ⟨-, -, -, c', hSame, hJoin, hSettle, hEq⟩ := accept_ok hOk
  rw [hCollect] at hSame
  cases hSame
  obtain ⟨n, -, hPending, -⟩ := settle_settles hSettle
  rw [hEq, Outcome.next_of_none hJoin, hPending] at hToken
  exact joinOf_mem (List.mem_of_mem_drop hToken)

theorem acceptTimes_iff {r : Reconciler} (hTimely : r.closed = false → r.Timely) (h : SpeechHypothesis)
    (overlap : Nat) : AllInInt64 (r.acceptTimes h overlap) ↔ r.Near (.accept h overlap) := by
  rw [acceptTimes, Near, checked]
  by_cases hSequence : (r.closed || r.trackChanged h || !r.windowValid h overlap) = true
  · rw [if_pos hSequence, if_pos (by simp [hSequence])]
    exact ⟨fun _ c hNone => absurd hNone (Option.some_ne_none c).symm, fun _ => allIn_nil⟩
  · have hChecks := hSequence
    simp only [Bool.or_eq_true, Bool.not_eq_true', not_or, Bool.not_eq_true, Bool.not_eq_false] at hChecks
    obtain ⟨⟨hOpen, -⟩, hValid⟩ := hChecks
    have hStart := startTimes_in hValid
    rw [if_neg hSequence]
    cases hTime : timestampValid h with
    | false =>
      rw [if_pos (by simp), if_pos (by simp)]
      exact ⟨fun _ c hNone => absurd hNone (Option.some_ne_none c).symm, fun _ => hStart⟩
    | true =>
      have hPlaced := SpeechHypothesis.placed hValid hTime
      have hWindow := windowTimes_in hValid hPlaced
      rw [if_neg (by simp), if_neg (by simpa using hSequence), allIn_append, allIn_append]
      cases hCollect : collect h with
      | error failure =>
        exact ⟨fun _ c hNone => absurd hNone (Option.some_ne_none c).symm,
          fun _ => ⟨⟨hStart, hWindow⟩, allIn_nil⟩⟩
      | ok c =>
        have hFresh : ∀ token ∈ c.fresh, token.Timed := fun token hToken =>
          hPlaced.timed (collect_fits hPlaced.forward hCollect token hToken)
        have hJoined : ∀ token ∈ (r.joinOf h c).tokens c.fresh, token.Timed := by
          intro token hToken
          rcases joinOf_mem hToken with hOld | hNew
          · exact (hTimely hOpen).pending token hOld
          · exact hFresh token hNew
        dsimp only
        rw [allIn_append, joinTimes_iff (hTimely hOpen) h hFresh]
        constructor
        · rintro ⟨-, hNear, -⟩ c' hSame
          cases hSame
          exact hNear
        · intro hNear
          exact ⟨⟨hStart, hWindow⟩, hNear c rfl, settleTimes_in hValid hPlaced hJoined⟩

theorem callTimes_iff {r : Reconciler} (hTimely : r.closed = false → r.Timely) (call : ReconcileCall) :
    AllInInt64 (r.callTimes call) ↔ r.Near call := by
  cases call with
  | accept h overlap => exact acceptTimes_iff hTimely h overlap
  | finish =>
    refine ⟨fun _ => trivial, fun _ => ?_⟩
    rw [callTimes]
    split
    · exact allIn_nil
    · rename_i hOpen
      exact outputTimes_in (hTimely (by simpa using hOpen)).pending

theorem settle_endTime {env : ReconcileEnv} {r : Reconciler} {h : SpeechHypothesis} {overlap : Nat}
    {c : Collected} {join : Join} (hOk : (r.settle env h overlap c join).error = none) :
    (r.settle env h overlap c join).state.endTime = h.windowEnd := by
  obtain ⟨boundary, status, hSettle⟩ := settle_ok hOk
  rw [hSettle] at hOk ⊢
  obtain ⟨hFinal, hRest⟩ := Outcome.next_error_none hOk
  rw [Outcome.next_of_none hFinal]
  unfold holdTail at hRest ⊢
  dsimp only at hRest ⊢
  obtain ⟨hPending, -⟩ := Outcome.next_error_none hRest
  rw [Outcome.next_of_none hPending]

theorem checked_valid {r : Reconciler} {h : SpeechHypothesis} {overlap : Nat} {c : Collected}
    (hChecked : r.checked h overlap = some c) :
    r.windowValid h overlap = true ∧ timestampValid h = true := by
  unfold checked at hChecked
  split at hChecked
  · cases hChecked
  · rename_i hValid
    simp only [Bool.or_eq_true, Bool.not_eq_true', not_or, Bool.not_eq_true, Bool.not_eq_false] at hValid
    exact ⟨hValid.1.2, hValid.2⟩

theorem call_timely (env : ReconcileEnv) {r : Reconciler} (hTimely : r.closed = false → r.Timely)
    (call : ReconcileCall) (hOpen : (r.call env call).state.closed = false) :
    (r.call env call).state.Timely := by
  obtain ⟨h, overlap, c, rfl, hChecked, hOk⟩ := call_open hOpen
  obtain ⟨hBefore, hCollect⟩ := checked_some hChecked
  obtain ⟨hValid, hTime⟩ := checked_valid hChecked
  have hPlaced := SpeechHypothesis.placed hValid hTime
  have hFresh := collect_fits hPlaced.forward hCollect
  constructor
  · intro token hToken
    rcases accept_pending_mem hOk hCollect hToken with hOld | hNew
    · exact (hTimely hBefore).pending token hOld
    · exact hPlaced.timed (hFresh token hNew)
  · obtain ⟨-, -, -, c', -, hJoin, hSettle, hEq⟩ := accept_ok hOk
    rw [call, hEq, Outcome.next_of_none hJoin, settle_endTime hSettle]
    exact ⟨Int.le_trans hPlaced.low_le hPlaced.forward, by have := hPlaced.le_high; have := hPlaced.brief; omega⟩

end Reconciler

/-- The times of a whole run stay in range exactly when every comparison of two windows
is between words less than `2 ^ 63` microseconds apart. -/
theorem reconcile_times_in_range (env : ReconcileEnv) (calls : List ReconcileCall) :
    (∀ p ∈ visited (Reconciler.call env) Reconciler.initial calls, AllInInt64 (p.1.callTimes p.2)) ↔
      ∀ p ∈ visited (Reconciler.call env) Reconciler.initial calls, p.1.Near p.2 := by
  have hTimely := visited_keeps (P := fun r => r.closed = false → r.Timely)
    (fun r call h => Reconciler.call_timely env h call) calls (s := Reconciler.initial)
    fun _ => ⟨fun _ hNone => (nomatch hNone), by decide, by decide⟩
  constructor
  · intro h p hp
    exact (Reconciler.callTimes_iff (hTimely p hp) p.2).mp (h p hp)
  · intro h p hp
    exact (Reconciler.callTimes_iff (hTimely p hp) p.2).mpr (h p hp)

/-- Two overlapping windows at the two ends of the admitted range, with one word in common. -/
def farApart : List ReconcileCall :=
  [.accept { heardWindow 1 0 0 [spoken "hi" (2 ^ 62) (2 ^ 62 + 1500000)] with
      presentationTimeUs := some (2 ^ 62) } 16000,
   .accept { heardWindow 2 16000 32000 [spoken "hi" (-2 ^ 62) (-2 ^ 62)] with
      presentationTimeUs := some (-2 ^ 62) } 0]

theorem farApart_overflows :
    ¬∀ (env : ReconcileEnv) (calls : List ReconcileCall),
      ∀ p ∈ visited (Reconciler.call env) Reconciler.initial calls, AllInInt64 (p.1.callTimes p.2) := by
  intro hAll
  have hFar : ∃ p ∈ visited (Reconciler.call quietEnv) Reconciler.initial farApart,
      (2 ^ 63 : Int) ∈ p.1.callTimes p.2 := by
    decide +kernel
  obtain ⟨p, hp, hTime⟩ := hFar
  exact absurd (hAll quietEnv farApart p hp _ hTime) (by decide)

end GrpcAsr.Media
