import GrpcAsr.Asr.CallRuns

/-!
# What the client of a call receives

The Document and the trailer describe the events delivered before them, whatever the
threads' turns and the failures of the stream. The source is named by the hash of the
whole upload if and only if the upload was complete when the worker asked. A read that an
abort cut short is followed by no decode, and a stop that precedes the check of `gone`
leaves neither Document nor trailer.
-/

namespace GrpcAsr.Asr

set_option autoImplicit false

open Interaction History
open Media (Bytes ascii Status StatusCode)

section Fold

variable {parse : Bytes → Option Nat}

/-- The fold lists the finals and keyframes in the order it takes them. -/
theorem consumeAll_children {events : List TranscribeResponse}
    (hBody : ∀ event ∈ events, event.isBody = true) (fold : AsrDocumentFold)
    (hOpen : fold.finished = false) :
    (fold.consumeAll parse events).finished = false ∧
      (fold.consumeAll parse events).document.body.children =
        fold.document.body.children ++
          childRefs events fold.document.texts.length fold.document.pictures.length := by
  induction events generalizing fold with
  | nil => exact ⟨hOpen, (List.append_nil _).symm⟩
  | cons event events ih =>
    have hTakes := AsrDocumentFold.takes_consume parse fold hOpen event
    have hStillOpen : (fold.consume parse event).finished = false := by
      rw [hTakes.finished]
      have hEvent := hBody event List.mem_cons_self
      revert hEvent
      cases event <;> simp [TranscribeResponse.isBody, TranscribeResponse.complete?]
    obtain ⟨hFinished, hList⟩ :=
      ih (fun next hNext => hBody next (List.mem_cons_of_mem event hNext)) _ hStillOpen
    refine ⟨hFinished, hList.trans ?_⟩
    have hTexts : (fold.consume parse event).document.texts.length =
        fold.document.texts.length + (finalsOf [event]).length := by
      rw [hTakes.texts, List.length_append, List.length_map, finalsOf, List.filterMap_cons]
      cases event.final? <;> rfl
    have hPictures : (fold.consume parse event).document.pictures.length =
        fold.document.pictures.length + (keyframesOf [event]).length := by
      rw [hTakes.pictures, List.length_append, List.length_map, keyframesOf, List.filterMap_cons]
      cases event.keyframe? <;> rfl
    rw [hTakes.children, hTexts, hPictures, List.append_assoc, ← childRefs_append]
    rfl

variable (call : AsrCall) {before : List TranscribeResponse}
  (hBody : ∀ event ∈ before, event.isBody = true) (origin : DocumentOrigin)
  (trailer : TranscriptComplete)

include hBody

theorem documentOf_children :
    (call.documentOf before origin trailer).body.children = childRefs before 0 0 := by
  obtain ⟨hOpen, hChildren⟩ := @consumeAll_children call.parse before hBody call.newFold rfl
  unfold AsrCall.documentOf AsrDocumentFold.consume
  rw [if_neg (by rw [AsrDocumentFold.setSource, hOpen]; nofun)]
  exact hChildren

theorem documentOf_origin : (call.documentOf before origin trailer).origin = some origin := by
  obtain ⟨hOpen, -⟩ := @consumeAll_children call.parse before hBody call.newFold rfl
  unfold AsrCall.documentOf AsrDocumentFold.consume
  rw [if_neg (by rw [AsrDocumentFold.setSource, hOpen]; nofun)]
  rfl

end Fold

section Endings

variable {call : AsrCall} {hash : UInt64} {sent before after body : List TranscribeResponse}
  {event last : TranscribeResponse} {ok : Bool}

/-- The Document and the trailer are not among the events of the body. -/
theorem not_split_body (hBody : ∀ event ∈ body, event.isBody = true) (hEvent : event.isBody = false) :
    body ≠ before ++ event :: after := by
  rintro rfl
  have hIn := hBody event (List.mem_append_right before List.mem_cons_self)
  exact Bool.false_ne_true (hEvent.symm.trans hIn)

/-- Behind the body there is one place for what ends the stream. -/
theorem split_after_body (hBody : ∀ event ∈ body, event.isBody = true)
    (hEvent : event.isBody = false) (h : body ++ [last] = before ++ event :: after) :
    body = before ∧ last = event ∧ after = [] := by
  rcases snoc_eq_append_cons.mp h with hLast | ⟨rest, -, hIn⟩
  · exact hLast
  · exact (not_split_body hBody hEvent hIn).elim

theorem Closed.document_at {document : Document} (h : Closed call hash sent ok)
    (hSplit : sent = before ++ .document document :: after) :
    ∃ origin trailer, (∀ event ∈ before, event.isBody = true) ∧ origin.binaryHash = hash ∧
      document = call.documentOf before origin trailer ∧
      (after = [] ∨ after = [.complete trailer]) := by
  cases h with
  | neither hBody => exact (not_split_body hBody rfl hSplit).elim
  | document hBody hHash =>
    obtain ⟨rfl, hLast, rfl⟩ := split_after_body hBody rfl hSplit
    cases hLast
    exact ⟨_, _, hBody, hHash, rfl, .inl rfl⟩
  | both hBody hHash hCounts =>
    rw [List.append_cons] at hSplit
    rcases snoc_eq_append_cons.mp hSplit with ⟨-, hLast, -⟩ | ⟨rest, rfl, hRest⟩
    · cases hLast
    · obtain ⟨rfl, hLast, rfl⟩ := split_after_body hBody rfl hRest
      cases hLast
      exact ⟨_, _, hBody, hHash, rfl, .inr rfl⟩
  | trailer hBody hCounts =>
    obtain ⟨-, hLast, -⟩ := split_after_body hBody rfl hSplit
    cases hLast

theorem TranscriptComplete.Counts.snoc {trailer : TranscriptComplete} (h : trailer.Counts before)
    (hEvent : event.isBody = false) : trailer.Counts (before ++ [event]) := by
  have hNone : event.isFinal = false ∧ keyframesOf [event] = [] := by
    cases event with
    | complete _ | document _ => exact ⟨rfl, rfl⟩
    | mediaInfo _ | partialSegment _ | finalSegment _ | keyframe _ | notSet => cases hEvent
  refine ⟨?_, ?_⟩
  · rw [length_finalsOf_snoc, hNone.1, h.1]
    rfl
  · rw [length_keyframesOf_snoc, hNone.2, h.2]
    rfl

theorem Closed.trailer_at {trailer : TranscriptComplete} (h : Closed call hash sent ok)
    (hSplit : sent = before ++ .complete trailer :: after) : after = [] ∧ trailer.Counts sent := by
  cases h with
  | neither hBody => exact (not_split_body hBody rfl hSplit).elim
  | document hBody hHash =>
    obtain ⟨-, hLast, -⟩ := split_after_body hBody rfl hSplit
    cases hLast
  | both hBody hHash hCounts =>
    rw [List.append_cons] at hSplit ⊢
    rcases snoc_eq_append_cons.mp hSplit with ⟨rfl, hLast, rfl⟩ | ⟨rest, -, hRest⟩
    · cases hLast
      exact ⟨rfl, (hCounts.snoc rfl).snoc rfl⟩
    · obtain ⟨-, hLast, -⟩ := split_after_body hBody rfl hRest
      cases hLast
  | trailer hBody hCounts =>
    obtain ⟨rfl, hLast, rfl⟩ := split_after_body hBody rfl hSplit
    cases hLast
    exact ⟨rfl, hCounts.snoc rfl⟩

theorem Closed.delivered (h : Closed call hash sent true) :
    ∃ trailer, TranscribeResponse.complete trailer ∈ sent := by
  cases h with
  | both hBody hHash hCounts =>
    exact ⟨_, List.mem_append_right _ (List.mem_cons_of_mem _ (List.mem_singleton_self _))⟩
  | trailer hBody hCounts => exact ⟨_, List.mem_append_right _ (List.mem_singleton_self _)⟩

end Endings

section Delivered

variable {call : AsrCall} {s : CallState} {g : RpcGhost} {w : WorkerGhost} {k : StillsGhost}
  {before after : List TranscribeResponse} {event : TranscribeResponse}

/-- The Document or the trailer is there only if the worker has ended the stream. -/
theorem CallInv.closed (h : CallInv call s g w k) (hEvent : event.isBody = false)
    (hSplit : s.writer.sent = before ++ event :: after) :
    ∃ ok, w.ended = some ok ∧ Closed call (hashFor call.total w.complete) s.writer.sent ok := by
  cases hEnded : w.ended with
  | none => exact (not_split_body (h.writer.opened hEnded).body hEvent hSplit).elim
  | some ok => exact ⟨ok, rfl, h.writer.closed ok hEnded⟩

end Delivered

/-- What the client has describes what the client received. -/
structure Faithful (call : AsrCall) (sent : List TranscribeResponse) (status : Option Status) :
    Prop where
  document : ∀ before document after, sent = before ++ .document document :: after →
    ∃ origin trailer, document = call.documentOf before origin trailer ∧
      document.body.children = childRefs before 0 0 ∧
      (after = [] ∨ after = [.complete trailer])
  trailer : ∀ before trailer after, sent = before ++ .complete trailer :: after →
    after = [] ∧ trailer.Counts sent
  status : ∀ st, status = some st → st.isOk = true →
    ∃ trailer, TranscribeResponse.complete trailer ∈ sent

/-- After any turns of the threads, with any failures of the stream. -/
theorem stream_faithful (call : AsrCall) (turns : List (Turn Moment Empty)) :
    Faithful call (call.run turns).state.writer.sent (call.run turns).state.workerStatus := by
  obtain ⟨g, w, k, hInv⟩ := run_inv call turns
  constructor
  · intro before document after hSplit
    obtain ⟨ok, -, hClosed⟩ := hInv.closed rfl hSplit
    obtain ⟨origin, trailer, hBody, -, rfl, hAfter⟩ := hClosed.document_at hSplit
    exact ⟨origin, trailer, rfl, documentOf_children call hBody origin trailer, hAfter⟩
  · intro before trailer after hSplit
    obtain ⟨ok, -, hClosed⟩ := hInv.closed rfl hSplit
    exact hClosed.trailer_at hSplit
  · intro st hStatus hOk
    have hEnded := (hInv.exit st hStatus).2.1 hOk
    exact (hInv.writer.closed true hEnded).delivered

/-- The Document names the whole upload exactly if the upload was complete when the worker
asked, a hash of zero apart. -/
theorem origin_hash_iff (call : AsrCall) (turns : List (Turn Moment Empty))
    {before after : List TranscribeResponse} {document : Document}
    (hSplit : (call.run turns).state.writer.sent = before ++ .document document :: after) :
    (∃ origin, document.origin = some origin ∧ origin.binaryHash = contentHash call.total) ↔
      CompletedBefore (call.run turns).state.marks ∨ contentHash call.total = 0 := by
  obtain ⟨g, w, k, hInv⟩ := run_inv call turns
  obtain ⟨ok, -, hClosed⟩ := hInv.closed rfl hSplit
  obtain ⟨origin, trailer, hBody, hHash, rfl, -⟩ := hClosed.document_at hSplit
  rw [documentOf_origin call hBody origin trailer, hInv.trace.whole]
  have hOrigin : (∃ named, some origin = some named ∧ named.binaryHash = contentHash call.total) ↔
      hashFor call.total w.complete = contentHash call.total := by
    rw [← hHash]
    constructor
    · rintro ⟨_, hNamed, hEq⟩
      rw [Option.some.inj hNamed]
      exact hEq
    · exact fun hEq => ⟨origin, rfl, hEq⟩
  rw [hOrigin]
  by_cases hComplete : w.complete = some true
  · rw [hComplete]
    exact iff_of_true rfl (.inl rfl)
  · have hZero : hashFor call.total w.complete = 0 := by
      unfold hashFor
      split
      · rename_i hTrue
        exact (hComplete hTrue).elim
      · rfl
    rw [hZero, or_iff_right hComplete]
    exact eq_comm

/-- Four samples of silence. -/
def clip : Bytes :=
  ascii "RIFF" ++ [44, 0, 0, 0] ++ ascii "WAVEfmt " ++
    [16, 0, 0, 0, 1, 0, 1, 0, 128, 62, 0, 0, 0, 125, 0, 0, 2, 0, 16, 0] ++
    ascii "data" ++ [8, 0, 0, 0] ++ List.replicate 8 0

def clipCall (messages : List UploadMessage) : AsrCall where
  parse _ := none
  config := ⟨4, 30, 3600, 0, 10, 1000000, false, ascii "0.0.0-dev"⟩
  options := ⟨ascii "base", [], false, false, false, 0, true, false, ascii "clip.wav"⟩
  messages := messages
  extraction _ := .done
  rounds := 8

/-- Surroundings in which everything succeeds, with what the decoder gives. -/
def momentOf (pcm : Pcm) : Moment where
  written := true
  trailerWritten := true
  cancelled := false
  tool
    | .openDecoder _ => .ok ⟨0, 16000, 1⟩
    | .decode _ => .ok pcm
    | .probe => .ok ⟨true, 0, [], 16000, 1, false, []⟩
    | .readAudio _ => .ok []
    | .acquire _ | .openDemux _ | .openAudio | .cancelAudio | .closeAudio => .ok ()
  whisper _ := .returns 0 [] none

def turnsWith (index : Nat) (pcm : Pcm) (n : Nat) : List (Turn Moment Empty) :=
  List.replicate n (.thread index (momentOf pcm))

/-- The worker decodes the clip to the end of its samples. -/
def workerTurns (n : Nat) : List (Turn Moment Empty) :=
  turnsWith 1 ⟨[], true⟩ 7 ++ turnsWith 1 ⟨[0, 0, 0, 0], true⟩ 1 ++ turnsWith 1 ⟨[], true⟩ n

/-- The client has uploaded the clip and not yet closed its side. -/
def beforeHalfClose : List (Turn Moment Empty) := turnsWith 0 ⟨[], true⟩ 2 ++ workerTurns 15

/-- The upload is complete before the worker starts. -/
def afterHalfClose : List (Turn Moment Empty) := turnsWith 0 ⟨[], true⟩ 4 ++ workerTurns 15

/-- The hashes of the Documents that were delivered. -/
def deliveredHashes (s : CallState) : List (Option UInt64) :=
  (s.writer.sent.filterMap TranscribeResponse.document?).map fun document =>
    document.origin.map DocumentOrigin.binaryHash

theorem document_of_deliveredHashes {s : CallState} {hash : Option UInt64}
    (h : hash ∈ deliveredHashes s) :
    ∃ before document after, s.writer.sent = before ++ .document document :: after ∧
      document.origin.map DocumentOrigin.binaryHash = hash := by
  obtain ⟨document, hDocument, hHash⟩ := List.mem_map.mp h
  obtain ⟨event, hEvent, hSome⟩ := List.mem_filterMap.mp hDocument
  obtain ⟨before, after, hSplit⟩ := List.append_of_mem hEvent
  cases event with
  | document folded =>
    cases hSome
    exact ⟨before, document, after, hSplit, hHash⟩
  | mediaInfo _ | partialSegment _ | finalSegment _ | keyframe _ | complete _ | notSet => cases hSome

theorem origin_hash_after_half_close :
    ∃ document, TranscribeResponse.document document ∈
        ((clipCall [.chunk clip]).run afterHalfClose).state.writer.sent ∧
      ∃ origin, document.origin = some origin ∧ origin.binaryHash = contentHash clip := by
  have hHash : some (contentHash clip) ∈
      deliveredHashes ((clipCall [.chunk clip]).run afterHalfClose).state := by
    decide +kernel
  obtain ⟨before, document, after, hSplit, -⟩ := document_of_deliveredHashes hHash
  refine ⟨document, by rw [hSplit]; exact List.mem_append_right before List.mem_cons_self, ?_⟩
  have hCompleted : CompletedBefore ((clipCall [.chunk clip]).run afterHalfClose).state.marks :=
    ⟨((clipCall [.chunk clip]).run afterHalfClose).state.marks.take 20,
      ((clipCall [.chunk clip]).run afterHalfClose).state.marks.drop 21, by decide +kernel,
      by decide +kernel, by decide +kernel⟩
  exact (origin_hash_iff (clipCall [.chunk clip]) afterHalfClose hSplit).mpr (.inl hCompleted)

/-- A Document of the same upload that leaves before the half-close has no hash. -/
theorem origin_hash_before_half_close :
    ∃ document, TranscribeResponse.document document ∈
        ((clipCall [.chunk clip]).run beforeHalfClose).state.writer.sent ∧
      document.origin.map DocumentOrigin.binaryHash ≠ some (contentHash clip) := by
  have hHash : some 0 ∈ deliveredHashes ((clipCall [.chunk clip]).run beforeHalfClose).state := by
    decide +kernel
  obtain ⟨before, document, after, hSplit, hZero⟩ := document_of_deliveredHashes hHash
  refine ⟨document, by rw [hSplit]; exact List.mem_append_right before List.mem_cons_self, ?_⟩
  rw [hZero]
  decide +kernel

/-- The stop had been requested when the worker last checked `gone`. -/
def StoppedFirst (marks : List Mark) : Prop :=
  ∀ before after, marks = before ++ .gone :: after → .gone ∉ after → .stop ∈ before

theorem stoppedFirst_iff {marks : List Mark} : StoppedFirst marks ↔ ¬ Unstopped marks := by
  constructor
  · rintro hStopped ⟨before, after, hSplit, hLatest, hUnstopped⟩
    exact hUnstopped (hStopped before after hSplit hLatest)
  · intro hNot before after hSplit hLatest
    by_contra hUnstopped
    exact hNot ⟨before, after, hSplit, hLatest, hUnstopped⟩

/-- An aborted upload is never decoded as a short last window: nothing is decoded after a
read that was cut short, and a stop before the check ends the call without Document, trailer
or success, and without blaming the media. -/
theorem aborted_upload_not_decoded (call : AsrCall) (turns : List (Turn Moment Empty)) :
    CutQuiet (call.run turns).state.marks ∧
      (StoppedFirst (call.run turns).state.marks →
        (∀ event ∈ (call.run turns).state.writer.sent, event.isBody = true) ∧
        ∀ st, (call.run turns).state.workerStatus = some st →
          st.isOk = false ∧ st.code ≠ .invalidArgument) := by
  obtain ⟨g, w, k, hInv⟩ := run_inv call turns
  refine ⟨hInv.trace.quiet, fun hStopped => ?_⟩
  have hPolled : ¬ w.polled = some false := by
    rw [← not_congr hInv.trace.unstopped]
    exact stoppedFirst_iff.mp hStopped
  have hEnded : w.ended = none := by
    cases hSome : w.ended with
    | none => rfl
    | some ok => exact (hPolled (hInv.trace.checked (by rw [hSome]; rfl))).elim
  refine ⟨(hInv.writer.opened hEnded).body, fun st hStatus => ?_⟩
  obtain ⟨-, hOk, hInvalid⟩ := hInv.exit st hStatus
  refine ⟨Bool.eq_false_iff.mpr fun hIsOk => ?_, fun hCode => hPolled (hInvalid hCode)⟩
  rw [hEnded] at hOk
  cases hOk hIsOk

/-- The client breaks the protocol after the clip, and the read under way is cut short. -/
def cutTurns : List (Turn Moment Empty) :=
  turnsWith 0 ⟨[], true⟩ 2 ++ turnsWith 1 ⟨[], true⟩ 7 ++ turnsWith 0 ⟨[], true⟩ 2 ++
    turnsWith 1 ⟨[0, 0], false⟩ 3

/-- The stop comes between the two halves of the check. -/
def stoppedTurns : List (Turn Moment Empty) :=
  turnsWith 0 ⟨[], true⟩ 2 ++ workerTurns 6 ++ turnsWith 0 ⟨[], true⟩ 1 ++ turnsWith 1 ⟨[], true⟩ 2

theorem aborted_upload_not_decoded_clip :
    (.cut ∈ ((clipCall [.chunk clip, .notChunk]).run cutTurns).state.marks ∧
      CutQuiet ((clipCall [.chunk clip, .notChunk]).run cutTurns).state.marks) ∧
    (((clipCall [.chunk clip, .notChunk]).run stoppedTurns).state.workerStatus =
        some cancelledStatus ∧
      ∀ event ∈ ((clipCall [.chunk clip, .notChunk]).run stoppedTurns).state.writer.sent,
        event.isBody = true) := by
  have hMarks : ((clipCall [.chunk clip, .notChunk]).run stoppedTurns).state.marks =
      (((clipCall [.chunk clip, .notChunk]).run stoppedTurns).state.marks.take 17 ++ [.gone]) ++
        [.other] := by
    decide +kernel
  have hStopped : StoppedFirst ((clipCall [.chunk clip, .notChunk]).run stoppedTurns).state.marks := by
    rw [stoppedFirst_iff, hMarks, Unstopped, latest_snoc_of_ne (by decide), latest_snoc_self]
    decide +kernel
  exact ⟨⟨by decide +kernel, (aborted_upload_not_decoded _ cutTurns).1⟩, by decide +kernel,
    ((aborted_upload_not_decoded _ stoppedTurns).2 hStopped).1⟩

end GrpcAsr.Asr
