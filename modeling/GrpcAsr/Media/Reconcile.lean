import Mathlib.Algebra.Order.Ring.Rat
import Mathlib.Algebra.Order.Group.Unbundled.Abs
import GrpcAsr.Library.Emitting
import GrpcAsr.Media.Messages
import GrpcAsr.Media.Uuid

/-!
# Reconciliation of overlapping window hypotheses

`Reconciler` joins the lexical tokens of consecutive windows of one track. An overlap is
joined where a timed run of equal words anchors it; otherwise both sides are kept. The
part that no later window can change is final; the rest is a pending revision.
-/

namespace GrpcAsr.Media

open Emitting

set_option autoImplicit false

def tokenLimit : Nat := 2048

def textLimit : Nat := 128 * 1024

def tolerance : Int := 350000

def micros (sample : Nat) : Int :=
  ((sample / 16000 * 1000000 + sample % 16000 * 1000000 / 16000 : Nat) : Int)

namespace SpeechToken

def start (token : SpeechToken) : Int := token.startUs.getD 0

def «end» (token : SpeechToken) : Int := token.endUs.getD 0

def rendered (token : SpeechToken) : Bytes := token.renderedText.getD token.text

def tokenBytes (token : SpeechToken) : Nat :=
  token.text.length + (match token.renderedText with
    | some text => text.length
    | none => 0)

def isWordStart (token : SpeechToken) : Bool :=
  match token.parakeet with
  | some details => details.isWordStart
  | none => false

end SpeechToken

def keyByte (c : UInt8) : Option UInt8 :=
  if 65 ≤ c ∧ c ≤ 90 then some (c + 32)
  else if (97 ≤ c ∧ c ≤ 122) ∨ (48 ≤ c ∧ c ≤ 57) ∨ 128 ≤ c then some c
  else none

def key (text : Bytes) : Bytes := text.filterMap keyByte

def isSpace (c : UInt8) : Bool := c == 32 || (9 ≤ c && c ≤ 13)

/-- The code point value of a lead byte's payload followed by continuation bytes. -/
def codePoint (lead : Nat) (continuation : Bytes) : Nat :=
  continuation.foldl (fun value c => (value <<< 6) ||| (c &&& 63).toNat) lead

def scalarInRange (minimum value : Nat) : Bool :=
  !(value < minimum || 0x10ffff < value || (0xd800 ≤ value && value ≤ 0xdfff))

def isContinuation (c : UInt8) : Bool := c &&& 0xc0 == 0x80

def utf8 : Bytes → Bool
  | [] => true
  | lead :: rest =>
    if lead < 128 then utf8 rest
    else if 0xc2 ≤ lead ∧ lead ≤ 0xdf then
      match rest with
      | a :: rest =>
        isContinuation a && scalarInRange 0x80 (codePoint (lead &&& 31).toNat [a]) && utf8 rest
      | _ => false
    else if 0xe0 ≤ lead ∧ lead ≤ 0xef then
      match rest with
      | a :: b :: rest =>
        isContinuation a && isContinuation b &&
          scalarInRange 0x800 (codePoint (lead &&& 15).toNat [a, b]) && utf8 rest
      | _ => false
    else if 0xf0 ≤ lead ∧ lead ≤ 0xf4 then
      match rest with
      | a :: b :: c :: rest =>
        isContinuation a && isContinuation b && isContinuation c &&
          scalarInRange 0x10000 (codePoint (lead &&& 7).toNat [a, b, c]) && utf8 rest
      | _ => false
    else false

def timedMatch (a b : SpeechToken) : Bool :=
  max a.start b.start - min a.end b.end ≤ tolerance

structure Run where
  score : Nat
  count : Nat
  distance : ℚ
  deriving DecidableEq, Inhabited

structure Match where
  oldStart : Nat
  newStart : Nat
  run : Run
  ambiguous : Bool
  deriving DecidableEq, Inhabited

/-- The run that starts at an old and a fresh token, given the run behind both. -/
def extendRun (old fresh : SpeechToken) (limit : Int) (next : Run) : Option Run :=
  let a := key old.rendered
  if a ≠ key fresh.rendered ∨ (a ≠ [] ∧ timedMatch old fresh = false) ∨ limit < fresh.start then none
  else some
    { score := next.score + a.length
      count := next.count + 1
      distance := next.distance + |((old.start : ℚ) + old.end) - ((fresh.start : ℚ) + fresh.end)| / 2 }

def Match.consider (best : Match) (i j : Nat) (candidate : Run) : Match :=
  if best.run.score < candidate.score ∨
      (candidate.score = best.run.score ∧ best.run.count < candidate.count) then
    ⟨i, j, candidate, false⟩
  else if candidate.score = best.run.score ∧ candidate.count = best.run.count ∧
      candidate.score ≠ 0 then
    let delta := candidate.distance / candidate.count - best.run.distance / best.run.count
    if delta < -30000 then ⟨i, j, candidate, false⟩
    else if |delta| ≤ 30000 then { best with ambiguous := true }
    else best
  else best

/-- One row of the table, from the last fresh token down; `next` is the row below. -/
def anchorRow (old : SpeechToken) (i : Nat) (limit : Int) :
    List SpeechToken → Nat → List Run → Match → List Run × Match
  | [], _, _, best => ([default], best)
  | token :: fresh, j, next, best =>
    let done := anchorRow old i limit fresh (j + 1) next.tail best
    match extendRun old token limit (next.tail.headD default) with
    | none => (default :: done.1, done.2)
    | some run => (run :: done.1, done.2.consider i j run)

def anchorTable (fresh : List SpeechToken) (limit : Int) :
    List SpeechToken → Nat → List Run × Match
  | [], _ => (List.replicate (fresh.length + 1) default, default)
  | token :: old, i =>
    let below := anchorTable fresh limit old (i + 1)
    anchorRow token i limit fresh 0 below.1 below.2

def anchor (old fresh : List SpeechToken) (endTime : Int) : Match :=
  (anchorTable fresh (endTime + tolerance) old 0).2

def joinedKey (tokens : List SpeechToken) : Bytes := tokens.flatMap fun token => key token.rendered

structure Reconciler where
  pending : List SpeechToken
  metadata : TranscriptSegment
  id : Bytes
  revision : Nat
  window : Nat
  endSample : Nat
  endTime : Int
  track : Nat
  uncertain : Bool
  closed : Bool
  haveFinalText : Bool
  finalEndsSpace : Bool
  drawn : Nat
  handed : Nat
  deriving Inhabited

/-- The random bytes of the n-th UUID drawn, and the result of handing out the n-th
segment: the callback returns or throws. -/
structure ReconcileEnv where
  entropy : Nat → Entropy
  emit : Nat → TranscriptSegment → Option Exception

abbrev ReconcileOutcome := Outcome Reconciler TranscriptSegment Exception

namespace Reconciler

def initial : Reconciler := default

def needsSeparator (r : Reconciler) (text : Bytes) : Bool :=
  match text.getLast? with
  | none => r.haveFinalText && !r.finalEndsSpace
  | some c => !isSpace c

/-- Restores the space in front of a native word start. -/
def separate (r : Reconciler) (text : Bytes) (token : SpeechToken) : SpeechToken :=
  if token.isWordStart && r.needsSeparator text && token.rendered != [] &&
      !(token.rendered.head?.any isSpace) then
    { token with renderedText := some (32 :: token.rendered) }
  else token

def render (r : Reconciler) : List SpeechToken → Bytes → Nat → Except Failure (List SpeechToken × Bytes)
  | [], text, _ => .ok ([], text)
  | token :: tokens, text, outputBytes =>
    let emitted := r.separate text token
    let outputBytes := outputBytes + emitted.tokenBytes
    if textLimit < outputBytes then
      .error ⟨.resourceExhausted, "reconciled token text limit exceeded"⟩
    else
      match r.render tokens (text ++ emitted.rendered) outputBytes with
      | .ok (rest, whole) => .ok (emitted :: rest, whole)
      | .error failure => .error failure

def averageLog (tokens : List SpeechToken) : Option ℚ :=
  if tokens.all fun token => token.whisper.isSome then
    some ((tokens.map fun token => (token.whisper.map (·.logProbability)).getD 0).sum / tokens.length)
  else none

def segment (r : Reconciler) (source tokens : List SpeechToken) (text : Bytes) (final : Bool)
    (status : ReconciliationStatus) : TranscriptSegment :=
  { r.metadata with
    segmentId := r.id
    revision := r.revision
    final := final
    reconciliation := status
    tokens := tokens
    text := text
    startUs := source.foldl (fun least token => min least token.start) (2 ^ 63 - 1)
    endUs := source.foldl (fun greatest token => max greatest token.end) (-2 ^ 63)
    averageLogProbability := averageLog source }

/-- A new revision number, under a new UUID when no segment is open. -/
def revise (env : ReconcileEnv) (r : Reconciler) : Reconciler :=
  if r.id = [] then { r with id := uuid (env.entropy r.drawn), drawn := r.drawn + 1, revision := 1 }
  else { r with revision := r.revision + 1 }

def settleFinal (r : Reconciler) (count : Nat) (text : Bytes) : Reconciler :=
  let r := if text = [] then r
    else { r with haveFinalText := true, finalEndsSpace := text.getLast?.any isSpace }
  { r with pending := r.pending.drop count, id := [], revision := 0 }

def output (env : ReconcileEnv) (r : Reconciler) (count : Nat) (final : Bool)
    (status : ReconciliationStatus) : ReconcileOutcome :=
  if count = 0 then ⟨r, [], none⟩
  else
    let r := r.revise env
    match r.render (r.pending.take count) [] 0 with
    | .error failure => ⟨r, [], some (.failure failure)⟩
    | .ok (tokens, text) =>
      if !utf8 text then
        ⟨r, [], some (.failure ⟨.dataLoss, "reconciled text is not complete UTF-8"⟩)⟩
      else
        let segment := r.segment (r.pending.take count) tokens text final status
        let thrown := env.emit r.handed segment
        let r := { r with handed := r.handed + 1 }
        if thrown.isSome then ⟨r, [segment], thrown⟩
        else if final then ⟨r.settleFinal count text, [segment], none⟩
        else ⟨r, [segment], none⟩

end Reconciler

namespace SpeechHypothesis

def windowStart (h : SpeechHypothesis) : Int := h.presentationTimeUs.getD (micros h.firstSample)

def windowEnd (h : SpeechHypothesis) : Int := h.windowStart + micros h.sampleCount

end SpeechHypothesis

structure Collected where
  fresh : List SpeechToken
  metadata : TranscriptSegment
  hasMetadata : Bool
  invalidTiming : Bool
  textBytes : Nat
  deriving Inhabited

def clamp (value low high : Int) : Int := if value < low then low else if high < value then high else value

def SpeechToken.outside (token : SpeechToken) (low high : Int) : Bool :=
  token.start < low || high < token.end

/-- A token timed outside its window is moved to the window's edges. -/
def SpeechToken.fit (token : SpeechToken) (low high : Int) : SpeechToken :=
  if token.outside low high then
    { token with startUs := some (clamp token.start low high), endUs := some (clamp token.end low high) }
  else token

def collectToken (low high : Int) (c : Collected) (token : SpeechToken) : Except Failure Collected :=
  if token.kind = .control then .ok c
  else if token.kind ≠ .text ∨ token.startUs = none ∨ token.endUs = none ∨ token.end < token.start then
    .error ⟨.failedPrecondition, "reconciliation requires classified lexical tokens with timings"⟩
  else if tokenLimit < c.fresh.length + 1 ∨ textLimit < c.textBytes + token.tokenBytes then
    .error ⟨.resourceExhausted, "reconciliation context limit exceeded"⟩
  else .ok
    { c with
      fresh := c.fresh ++ [token.fit low high]
      invalidTiming := c.invalidTiming || token.outside low high
      textBytes := c.textBytes + token.tokenBytes }

def TranscriptSegment.lexical (segment : TranscriptSegment) : List SpeechToken :=
  segment.tokens.filter fun token => token.kind ≠ .control

def collectSegment (h : SpeechHypothesis) (c : Collected) (segment : TranscriptSegment) :
    Except Failure Collected :=
  if segment.trackId ≠ h.trackId ∨ (c.hasMetadata = true ∧ (segment.task ≠ c.metadata.task ∨
      segment.sourceLanguage ≠ c.metadata.sourceLanguage ∨
      segment.outputLanguage ≠ c.metadata.outputLanguage)) then
    .error ⟨.invalidArgument, "inconsistent hypothesis segment identity"⟩
  else
    let c := if c.hasMetadata then c else { c with metadata := segment, hasMetadata := true }
    match segment.tokens.foldlM (collectToken h.windowStart h.windowEnd) c with
    | .error failure => .error failure
    | .ok c =>
      let text := segment.lexical.flatMap SpeechToken.rendered
      if text ≠ segment.text ∨ utf8 text = false then
        .error ⟨.dataLoss, "lexical tokens do not reconstruct native text"⟩
      else .ok c

def collect (h : SpeechHypothesis) : Except Failure Collected :=
  h.segments.foldlM (collectSegment h) default

/-- How a window meets the pending tail of the window before it. -/
inductive Join
  | start
  | flush
  | aligned (merged : List SpeechToken)
  | unresolved
  deriving DecidableEq

namespace Reconciler

def trackChanged (r : Reconciler) (h : SpeechHypothesis) : Bool := r.window != 0 && h.trackId != r.track

def windowValid (r : Reconciler) (h : SpeechHypothesis) (overlap : Nat) : Bool :=
  h.windowNumber == r.window + 1 && h.sampleCount != 0 && h.sampleCount ≤ 480000 &&
    h.firstSample ≤ 100000000000000 && overlap < h.sampleCount &&
    h.firstSample ≤ h.firstNewSample && h.firstNewSample < h.firstSample + h.sampleCount &&
    (r.window == 0 || h.firstNewSample == r.endSample) &&
    (r.window != 0 || h.firstNewSample == h.firstSample)

def timestampValid (h : SpeechHypothesis) : Bool := -2 ^ 62 ≤ h.windowStart && h.windowStart ≤ 2 ^ 62

def beyondPrevious (r : Reconciler) (c : Collected) : Bool :=
  !c.invalidTiming && c.fresh != [] && c.fresh.all fun token => r.endTime + tolerance < token.start

def sameLanguage (r : Reconciler) (c : Collected) : Bool :=
  c.metadata.sourceLanguage == r.metadata.sourceLanguage &&
    c.metadata.outputLanguage == r.metadata.outputLanguage && c.metadata.task == r.metadata.task

/-- An anchored join keeps every word of both sides: the parts before the anchor agree, and
a remaining old tail opens the new one and reaches the end of its window. -/
def joinSafe (r : Reconciler) (c : Collected) (found : Match) : Bool :=
  let aEnd := found.oldStart + found.run.count
  let bEnd := found.newStart + found.run.count
  2 ≤ found.run.score && !found.ambiguous && c.fresh != [] && r.sameLanguage c &&
    (found.oldStart == 0 || found.newStart == 0 ||
      joinedKey (r.pending.take found.oldStart) == joinedKey (c.fresh.take found.newStart)) &&
    (!(aEnd < r.pending.length) ||
      (joinedKey (r.pending.drop aEnd) != [] &&
        (joinedKey (r.pending.drop aEnd)).isPrefixOf (joinedKey (c.fresh.drop bEnd)) &&
        r.endTime - 500000 ≤ (r.pending.getLast?.map SpeechToken.end).getD 0))

def merge (r : Reconciler) (c : Collected) (found : Match) : List SpeechToken :=
  r.pending.take found.oldStart ++
    c.fresh.drop (if found.oldStart = 0 then 0 else found.newStart)

def joinOf (r : Reconciler) (h : SpeechHypothesis) (c : Collected) : Join :=
  if r.pending = [] then .start
  else if h.firstNewSample ≤ h.firstSample ∨ r.beyondPrevious c = true ∨ c.fresh = [] then .flush
  else
    let found := anchor r.pending c.fresh r.endTime
    if r.joinSafe c found then .aligned (r.merge c found) else .unresolved

def flushStatus (r : Reconciler) : ReconciliationStatus :=
  if r.uncertain then .unresolved else .direct

/-- The output a join makes of the old pending tokens before the new ones replace them. -/
def applyJoin (env : ReconcileEnv) (r : Reconciler) : Join → ReconcileOutcome
  | .start => ⟨r, [], none⟩
  | .flush => (r.output env r.pending.length true r.flushStatus).next fun r =>
      ⟨{ r with uncertain := false }, [], none⟩
  | .aligned _ => ⟨r, [], none⟩
  | .unresolved => r.output env r.pending.length true .unresolved

end Reconciler

def Join.status : Join → ReconciliationStatus
  | .aligned _ => .aligned
  | .unresolved => .unresolved
  | _ => .direct

def Join.tokens (join : Join) (fresh : List SpeechToken) : List SpeechToken :=
  match join with
  | .aligned merged => merged
  | _ => fresh

structure Boundary where
  stable : Nat
  safe : Nat
  wordStart : Nat
  pre : Bytes
  deriving DecidableEq, Inhabited

/-- The walk over the tokens that end before the cutoff. -/
def stableWalk (overlap : Nat) (cutoff : Int) : List SpeechToken → Boundary → Boundary
  | [], b => b
  | token :: tokens, b =>
    if overlap ≠ 0 ∧ cutoff < token.end then b
    else
      let text := b.pre ++ token.rendered
      stableWalk overlap cutoff tokens
        { stable := b.stable + 1
          safe := if utf8 text then b.stable + 1 else b.safe
          wordStart := if token.isWordStart then b.stable else b.wordStart
          pre := text }

/-- A native word whose later pieces overlap stays pending as a whole. -/
def stableBoundary (pending : List SpeechToken) (overlap : Nat) (cutoff : Int) : Nat :=
  let b := stableWalk overlap cutoff pending default
  match pending[b.stable]? with
  | some token =>
    if token.parakeet.isSome && !token.isWordStart then min b.safe b.wordStart else b.safe
  | none => b.safe

namespace Reconciler

def holdTail (env : ReconcileEnv) (h : SpeechHypothesis) (status : ReconciliationStatus)
    (r : Reconciler) : ReconcileOutcome :=
  let r := { r with uncertain := r.pending != [] && status == ReconciliationStatus.unresolved }
  (r.output env r.pending.length false .pending).next fun r =>
    ⟨{ r with
        track := h.trackId
        window := r.window + 1
        endSample := h.firstSample + h.sampleCount
        endTime := h.windowEnd }, [], none⟩

def settle (env : ReconcileEnv) (r : Reconciler) (h : SpeechHypothesis) (overlap : Nat)
    (c : Collected) (join : Join) : ReconcileOutcome :=
  let r := { r with pending := join.tokens c.fresh, metadata := c.metadata }
  if tokenLimit < r.pending.length then
    ⟨r, [], some (.failure ⟨.resourceExhausted, "reconciliation context limit exceeded"⟩)⟩
  else if textLimit < (r.pending.map SpeechToken.tokenBytes).sum then
    ⟨r, [], some (.failure ⟨.resourceExhausted, "reconciliation text limit exceeded"⟩)⟩
  else
    let status : ReconciliationStatus :=
      if c.invalidTiming || r.uncertain then .unresolved else join.status
    let boundary := stableBoundary r.pending overlap (h.windowEnd - micros overlap)
    (r.output env boundary true status).next (holdTail env h status)

def reconcile (env : ReconcileEnv) (r : Reconciler) (h : SpeechHypothesis) (overlap : Nat) :
    ReconcileOutcome :=
  if r.trackChanged h then
    ⟨r, [], some (.failure ⟨.invalidArgument, "reconciliation track changed"⟩)⟩
  else if !r.windowValid h overlap then
    ⟨r, [], some (.failure ⟨.invalidArgument, "invalid reconciliation window sequence"⟩)⟩
  else if !timestampValid h then
    ⟨r, [], some (.failure ⟨.invalidArgument, "reconciliation timestamp exceeds limit"⟩)⟩
  else
    match collect h with
    | .error failure => ⟨r, [], some (.failure failure)⟩
    | .ok c =>
      (r.applyJoin env (r.joinOf h c)).next fun next => next.settle env h overlap c (r.joinOf h c)

def accept (env : ReconcileEnv) (r : Reconciler) (h : SpeechHypothesis) (overlap : Nat) :
    ReconcileOutcome :=
  if r.closed then ⟨r, [], some (.logicError "hypothesis after reconciliation close")⟩
  else
    let o := r.reconcile env h overlap
    if o.error.isSome then { o with state := { o.state with closed := true } } else o

def finish (env : ReconcileEnv) (r : Reconciler) : ReconcileOutcome :=
  if r.closed then ⟨r, [], some (.logicError "reconciliation already closed")⟩
  else { r with closed := true }.output env r.pending.length true r.flushStatus

end Reconciler

def spoken (text : String) (startUs endUs : Int) : SpeechToken :=
  { (default : SpeechToken) with
    text := ascii text, startUs := some startUs, endUs := some endUs, kind := .text }

def heardWindow (number first new : Nat) (tokens : List SpeechToken) : SpeechHypothesis :=
  { (default : SpeechHypothesis) with
    windowNumber := number, firstSample := first, firstNewSample := new, sampleCount := 32000
    segments := [{ (default : TranscriptSegment) with
      tokens := tokens, text := tokens.flatMap SpeechToken.rendered }] }

/-- Two windows that share a word in their second of overlap. -/
def overlapping : List (SpeechHypothesis × Nat) :=
  [(heardWindow 1 0 0 [spoken "hello" 0 400000, spoken " world" 1200000 1500000], 16000),
   (heardWindow 2 16000 32000 [spoken " world" 1210000 1500000, spoken " again" 2000000 2500000], 0)]

def quietEnv : ReconcileEnv := ⟨fun n _ => UInt8.ofNat n, fun _ _ => none⟩

end GrpcAsr.Media
