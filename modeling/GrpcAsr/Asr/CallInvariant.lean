import GrpcAsr.Library.History
import GrpcAsr.Asr.DocumentItems
import GrpcAsr.Asr.CallThreads

/-!
# What holds across the threads of a call

The ghost states of the three threads are tied to the shared state part by part: the
upload, the keyframe thread, the history of served requests, the writer, and the worker's
exit. The history is told by marks, of which only the order matters.
-/

namespace GrpcAsr.Asr

set_option autoImplicit false

open Interaction History
open Media (Bytes ascii Status StatusCode)

/-- The served requests that the order of a run is told by. -/
inductive Mark
  | stop
  | complete
  | asked
  | gone
  | cut
  | decoded
  | other
  deriving DecidableEq

/-- A stop, the end of the upload, the question for it and the check of `gone`; a read that
was cut short, and what must not follow it: a whisper call or a final. -/
def Request.mark : (request : Request) → request.Answer → Mark
  | .requestStop, _ => .stop
  | .complete, _ => .complete
  | .isComplete, _ => .asked
  | .stopRequested .gone, _ => .gone
  | .tool call, answer => if call.cutShort answer then .cut else .other
  | .whisper _, _ => .decoded
  | .write response, _ => if response.isFinal then .decoded else .other
  | _, _ => .other

def CallState.marks (s : CallState) : List Mark :=
  s.trace.map fun served => served.request.mark served.answer

/-- The latest check of `gone` came before any stop. -/
def Unstopped (marks : List Mark) : Prop := Latest .gone (fun before => .stop ∉ before) marks

/-- The upload was complete when the worker asked whether it was. -/
def CompletedBefore (marks : List Mark) : Prop :=
  Latest .asked (fun before => .complete ∈ before) marks

/-- No whisper call is made and no final is written after a read that was cut short. -/
def CutQuiet (marks : List Mark) : Prop := NeverAfter .cut .decoded marks

section Invariant

variable (call : AsrCall)

def AsrCall.total : Bytes := mediaBytes call.messages

/-- The Document of a stream: the fold of the events before it, the source and the trailer. -/
def AsrCall.documentOf (before : List TranscribeResponse) (origin : DocumentOrigin)
    (trailer : TranscriptComplete) : Document :=
  (((call.newFold.consumeAll call.parse before).setSource origin).consume call.parse
    (.complete trailer)).document

/-- An event that neither is the Document nor the trailer. -/
def TranscribeResponse.isBody : TranscribeResponse → Bool
  | .document _ | .complete _ => false
  | _ => true

def TranscriptComplete.Counts (trailer : TranscriptComplete) (events : List TranscribeResponse) :
    Prop :=
  trailer.segmentCount = UInt32.ofNat (finalsOf events).length ∧
    trailer.keyframeCount = UInt32.ofNat (keyframesOf events).length

/-- What the client has when the stream was ended, and what the worker was told. -/
inductive Closed (hash : UInt64) : List TranscribeResponse → Bool → Prop
  | neither {before : List TranscribeResponse} (hBody : ∀ event ∈ before, event.isBody = true) :
    Closed hash before false
  | document {before : List TranscribeResponse} {origin : DocumentOrigin}
    {trailer : TranscriptComplete} (hBody : ∀ event ∈ before, event.isBody = true)
    (hHash : origin.binaryHash = hash) :
    Closed hash (before ++ [.document (call.documentOf before origin trailer)]) false
  | both {before : List TranscribeResponse} {origin : DocumentOrigin}
    {trailer : TranscriptComplete} (hBody : ∀ event ∈ before, event.isBody = true)
    (hHash : origin.binaryHash = hash) (hCounts : trailer.Counts before) :
    Closed hash
      (before ++ [.document (call.documentOf before origin trailer), .complete trailer]) true
  | trailer {before : List TranscribeResponse} {trailer : TranscriptComplete}
    (hBody : ∀ event ∈ before, event.isBody = true) (hCounts : trailer.Counts before) :
    Closed hash (before ++ [.complete trailer]) true

/-- A still that is written and not yet counted. -/
def StillsGhost.pending : StillsGhost → UInt32
  | .running true => 1
  | _ => 0

def namedFold (fold : AsrDocumentFold) : Option DocumentOrigin → AsrDocumentFold
  | none => fold
  | some origin => fold.setSource origin

/-- The upload against what the RPC thread did and the worker saw. -/
structure UploadInv (total : Bytes) (upload : ByteStream) (stop : Bool) (g : RpcGhost)
    (cut : Bool) (complete : Option Bool) : Prop where
  bytes : upload.bytes = g.appended
  completed : upload.complete = g.completed
  whole : g.completed = true → g.appended = total
  stopping : g.stopping = true → stop = true
  aborted : upload.aborted = true → stop = true
  truncated : cut = true → stop = true
  seen : complete = some true → upload.complete = true

/-- The keyframe thread against what the worker knows of it. -/
structure StillsInv (interval : Option UInt32) (exited : Bool) (count : UInt32)
    (view : StillsView) (source : Option DocumentOrigin) (frames : Option UInt32)
    (ended : Option Bool) (k : StillsGhost) : Prop where
  spawned : interval.isSome = true ↔ view ≠ .absent
  waiting : view = .absent → k = .waiting
  finished : exited = true → k = .exited
  joined : view = .joined → k = .exited
  beside : view = .running → source = none ∧ frames = none ∧ ended = none
  counted : ∀ seen, frames = some seen → seen = count

/-- The history against the flags and what the worker remembers. -/
structure TraceInv (marks : List Mark) (stop complete cut : Bool) (polled asked ended : Option Bool) :
    Prop where
  stopped : .stop ∈ marks ↔ stop = true
  completed : .complete ∈ marks ↔ complete = true
  truncated : .cut ∈ marks → cut = true
  quiet : CutQuiet marks
  unstopped : Unstopped marks ↔ polled = some false
  whole : CompletedBefore marks ↔ asked = some true
  checked : ended.isSome = true → polled = some false

/-- The writer before the stream is ended. Once it is dead the fold and the worker's count
run ahead of what the client has. -/
structure WriterOpen (writer : LockedWriter) (count : UInt32) (finals : Nat)
    (source : Option DocumentOrigin) (k : StillsGhost) : Prop where
  fold : writer.fold.isSome = call.options.emitDocument
  body : ∀ event ∈ writer.sent, event.isBody = true
  folded : writer.dead = false → ∀ fold, writer.fold = some fold →
    fold = namedFold (call.newFold.consumeAll call.parse writer.sent) source
  counted : writer.dead = false → (finalsOf writer.sent).length = finals
  stills : UInt32.ofNat (keyframesOf writer.sent).length = count + k.pending

structure WriterInv (writer : LockedWriter) (count : UInt32) (finals : Nat)
    (folding complete : Option Bool) (source : Option DocumentOrigin) (ended : Option Bool)
    (k : StillsGhost) : Prop where
  folds : ∀ seen, folding = some seen → seen = call.options.emitDocument
  named : ∀ origin, source = some origin →
    complete.isSome = true ∧ origin.binaryHash = hashFor call.total complete
  opened : ended = none → WriterOpen call writer count finals source k
  closed : ∀ ok, ended = some ok → Closed call (hashFor call.total complete) writer.sent ok

/-- The worker's exit. -/
def ExitInv (status : Option Status) (exited : Bool) (polled ended : Option Bool) : Prop :=
  ∀ st, status = some st → exited = true ∧ (st.isOk = true → ended = some true) ∧
    (st.code = .invalidArgument → polled = some false)

structure CallInv (s : CallState) (g : RpcGhost) (w : WorkerGhost) (k : StillsGhost) : Prop where
  upload : UploadInv call.total s.upload s.stop g w.cut w.complete
  stills : StillsInv s.stills.interval s.stills.exited s.stills.count w.stills w.source w.frames
    w.ended k
  trace : TraceInv s.marks s.stop s.upload.complete w.cut w.polled w.complete w.ended
  writer : WriterInv call s.writer s.stills.count w.finals w.folding w.complete w.source w.ended k
  exit : ExitInv s.workerStatus w.exited w.polled w.ended

theorem start_inv : CallInv call call.start .initial .initial .waiting where
  upload := ⟨rfl, rfl, nofun, nofun, nofun, nofun, nofun⟩
  stills := by
    exact ⟨⟨nofun, fun h => (h rfl).elim⟩, fun _ => rfl, nofun, nofun, nofun,
      fun _ h => (nomatch h)⟩
  trace := by
    have hNil : ∀ mark : Mark, mark ∈ ([] : List Mark) ↔ false = true := fun mark =>
      ⟨fun h => (List.not_mem_nil h).elim, nofun⟩
    refine ⟨hNil _, hNil _, fun h => (List.not_mem_nil h).elim, neverAfter_nil _ _, ?_, ?_, nofun⟩
    · exact ⟨fun h => (not_latest_nil h).elim, nofun⟩
    · exact ⟨fun h => (not_latest_nil h).elim, nofun⟩
  writer := by
    refine ⟨fun _ h => (nomatch h), fun _ h => (nomatch h),
      fun _ => ⟨?_, fun _ h => (List.not_mem_nil h).elim, ?_, fun _ => rfl, ?_⟩,
      fun _ h => (nomatch h)⟩
    · unfold AsrCall.start
      split
      · rename_i hEmit
        exact hEmit.symm
      · rename_i hEmit
        exact (Bool.eq_false_iff.mpr hEmit).symm
    · intro _ fold hFold
      unfold AsrCall.start at hFold
      split at hFold
      · exact (Option.some.inj hFold).symm
      · cases hFold
    · exact (UInt32.add_zero 0).symm
  exit := fun _ h => nomatch h

end Invariant

section History

variable {marks : List Mark} {stop complete cut : Bool} {polled asked ended : Option Bool}

theorem mem_snoc_self_iff (mark : Mark) : mark ∈ marks ++ [mark] ↔ true = true :=
  ⟨fun _ => rfl, fun _ => List.mem_append_right marks (List.mem_singleton_self mark)⟩

theorem mem_snoc_iff {mark entry : Mark} (h : mark ≠ entry) :
    entry ∈ marks ++ [mark] ↔ entry ∈ marks := by
  rw [List.mem_append, List.mem_singleton]
  exact or_iff_left (Ne.symm h)

/-- An entry that says nothing about the stop, the upload and the checks. -/
theorem TraceInv.push (h : TraceInv marks stop complete cut polled asked ended) {mark : Mark}
    (hStop : mark ≠ .stop) (hComplete : mark ≠ .complete) (hGone : mark ≠ .gone)
    (hAsked : mark ≠ .asked) (hCut : mark = .cut → cut = true)
    (hDecoded : mark = .decoded → cut = false) :
    TraceInv (marks ++ [mark]) stop complete cut polled asked ended := by
  refine ⟨(mem_snoc_iff hStop).trans h.stopped, (mem_snoc_iff hComplete).trans h.completed, ?_, ?_,
    ?_, ?_, h.checked⟩
  · intro hIn
    rcases List.mem_append.mp hIn with hMarks | hLast
    · exact h.truncated hMarks
    · exact hCut (List.mem_singleton.mp hLast).symm
  · refine h.quiet.snoc fun hMark hIn => ?_
    exact Bool.false_ne_true ((hDecoded hMark).symm.trans (h.truncated hIn))
  · exact (latest_snoc_of_ne hGone).trans h.unstopped
  · exact (latest_snoc_of_ne hAsked).trans h.whole

theorem TraceInv.cutting (h : TraceInv marks stop complete cut polled asked ended)
    (cut' : Bool) (hCut : cut = true → cut' = true) :
    TraceInv marks stop complete cut' polled asked ended :=
  ⟨h.stopped, h.completed, fun hIn => hCut (h.truncated hIn), h.quiet, h.unstopped, h.whole,
    h.checked⟩

theorem TraceInv.other (h : TraceInv marks stop complete cut polled asked ended) :
    TraceInv (marks ++ [.other]) stop complete cut polled asked ended :=
  h.push (by decide) (by decide) (by decide) (by decide) nofun nofun

/-- A whisper call or a final, while no read has been cut short. -/
theorem TraceInv.decode (h : TraceInv marks stop complete cut polled asked ended)
    (hCut : cut = false) :
    TraceInv (marks ++ [.decoded]) stop complete cut polled asked ended :=
  h.push (by decide) (by decide) (by decide) (by decide) nofun fun _ => hCut

theorem TraceInv.requestStop (h : TraceInv marks stop complete cut polled asked ended) :
    TraceInv (marks ++ [.stop]) true complete cut polled asked ended where
  stopped := mem_snoc_self_iff .stop
  completed := (mem_snoc_iff (by decide)).trans h.completed
  truncated hIn := h.truncated ((mem_snoc_iff (by decide)).mp hIn)
  quiet := h.quiet.snoc nofun
  unstopped := (latest_snoc_of_ne (by decide)).trans h.unstopped
  whole := (latest_snoc_of_ne (by decide)).trans h.whole
  checked := h.checked

theorem TraceInv.completing (h : TraceInv marks stop complete cut polled asked ended) :
    TraceInv (marks ++ [.complete]) stop true cut polled asked ended where
  stopped := (mem_snoc_iff (by decide)).trans h.stopped
  completed := mem_snoc_self_iff .complete
  truncated hIn := h.truncated ((mem_snoc_iff (by decide)).mp hIn)
  quiet := h.quiet.snoc nofun
  unstopped := (latest_snoc_of_ne (by decide)).trans h.unstopped
  whole := (latest_snoc_of_ne (by decide)).trans h.whole
  checked := h.checked

/-- The answer to a check of `gone` is remembered. -/
theorem TraceInv.check (h : TraceInv marks stop complete cut polled asked ended)
    (hEnded : ended = none) :
    TraceInv (marks ++ [.gone]) stop complete cut (some stop) asked ended where
  stopped := (mem_snoc_iff (by decide)).trans h.stopped
  completed := (mem_snoc_iff (by decide)).trans h.completed
  truncated hIn := h.truncated ((mem_snoc_iff (by decide)).mp hIn)
  quiet := h.quiet.snoc nofun
  unstopped := by
    refine latest_snoc_self.trans ((not_congr h.stopped).trans ?_)
    rw [Option.some.injEq, Bool.not_eq_true]
  whole := (latest_snoc_of_ne (by decide)).trans h.whole
  checked hSome := by
    rw [hEnded] at hSome
    cases hSome

/-- So is the answer to the question for the end of the upload. -/
theorem TraceInv.ask (h : TraceInv marks stop complete cut polled asked ended) :
    TraceInv (marks ++ [.asked]) stop complete cut polled (some complete) ended where
  stopped := (mem_snoc_iff (by decide)).trans h.stopped
  completed := (mem_snoc_iff (by decide)).trans h.completed
  truncated hIn := h.truncated ((mem_snoc_iff (by decide)).mp hIn)
  quiet := h.quiet.snoc nofun
  unstopped := (latest_snoc_of_ne (by decide)).trans h.unstopped
  whole := by
    refine latest_snoc_self.trans (h.completed.trans ?_)
    rw [Option.some.injEq]
  checked := h.checked

end History

section Stills

variable {interval : Option UInt32} {exited : Bool} {count : UInt32} {view : StillsView}
  {source : Option DocumentOrigin} {frames : Option UInt32} {ended : Option Bool}
  {k : StillsGhost}

/-- The keyframe thread takes a step only while the worker knows it to run. -/
theorem StillsInv.running (h : StillsInv interval exited count view source frames ended k)
    {pending : Bool} (hRunning : k = .running pending) : view = .running ∧ exited = false := by
  subst hRunning
  refine ⟨?_, ?_⟩
  · cases view with
    | absent => cases h.waiting rfl
    | running => rfl
    | joined => cases h.joined rfl
  · cases exited with
    | true => cases h.finished rfl
    | false => rfl

theorem StillsInv.advance (h : StillsInv interval exited count view source frames ended k)
    (hView : view = .running) (hExited : exited = false) (count' : UInt32) (k' : StillsGhost) :
    StillsInv interval exited count' view source frames ended k' := by
  subst hView hExited
  refine ⟨h.spawned, nofun, nofun, nofun, h.beside, fun seen hSeen => ?_⟩
  rw [(h.beside rfl).2.1] at hSeen
  cases hSeen

theorem StillsInv.settled (h : StillsInv interval exited count view source frames ended k)
    (hView : view ≠ .running) : k.pending = 0 := by
  cases view with
  | absent =>
    rw [h.waiting rfl]
    rfl
  | running => exact (hView rfl).elim
  | joined =>
    rw [h.joined rfl]
    rfl

end Stills

section Writer

variable {call : AsrCall} {writer writer' : LockedWriter} {count : UInt32} {finals : Nat}
  {source : Option DocumentOrigin} {k k' : StillsGhost}

/-- A write goes through, or the writer is dead after it. -/
theorem writeLocked_cases {parse : Bytes → Option Nat} {written ok : Bool}
    {response : TranscribeResponse} (h : writer.writeLocked parse written response = (ok, writer')) :
    writer'.fold = writer.fold.map (fun fold => fold.consume parse response) ∧
      ((ok = true ∧ writer.dead = false ∧ writer'.dead = false ∧
          writer'.sent = writer.sent ++ [response]) ∨
        (ok = false ∧ writer'.dead = true ∧ writer'.sent = writer.sent)) := by
  unfold LockedWriter.writeLocked at h
  dsimp only at h
  split at h
  · rename_i hDead
    obtain ⟨rfl, rfl⟩ := Prod.mk.inj h
    exact ⟨rfl, .inr ⟨rfl, hDead, rfl⟩⟩
  · rename_i hDead
    split at h
    · obtain ⟨rfl, rfl⟩ := Prod.mk.inj h
      have hAlive := Bool.eq_false_iff.mpr hDead
      exact ⟨rfl, .inl ⟨rfl, hAlive, hAlive, rfl⟩⟩
    · obtain ⟨rfl, rfl⟩ := Prod.mk.inj h
      exact ⟨rfl, .inr ⟨rfl, rfl, rfl⟩⟩

theorem length_finalsOf_snoc (events : List TranscribeResponse) (event : TranscribeResponse) :
    (finalsOf (events ++ [event])).length =
      (finalsOf events).length + if event.isFinal then 1 else 0 := by
  rw [finalsOf, List.filterMap_append, List.length_append]
  cases event <;> rfl

theorem length_keyframesOf_snoc (events : List TranscribeResponse) (event : TranscribeResponse) :
    (keyframesOf (events ++ [event])).length =
      (keyframesOf events).length + (keyframesOf [event]).length := by
  rw [keyframesOf, List.filterMap_append, List.length_append]
  rfl

/-- A write before the source is named, by either thread. -/
theorem WriterOpen.write {written ok : Bool} {response : TranscribeResponse}
    (h : WriterOpen call writer count finals none k) (hBody : response.isBody = true)
    (hServed : writer.writeLocked call.parse written response = (ok, writer'))
    (hPending : k'.pending =
      k.pending + UInt32.ofNat (if ok then (keyframesOf [response]).length else 0)) :
    WriterOpen call writer' count (finals + if response.isFinal then 1 else 0) none k' := by
  obtain ⟨hFold, hSent⟩ := writeLocked_cases hServed
  have hIsSome : writer'.fold.isSome = call.options.emitDocument := by
    rw [hFold, Option.isSome_map, h.fold]
  rcases hSent with ⟨rfl, hAlive, hAlive', hSent⟩ | ⟨rfl, hDead, hSent⟩
  · refine ⟨hIsSome, ?_, ?_, ?_, ?_⟩
    · intro event hEvent
      rw [hSent] at hEvent
      rcases List.mem_append.mp hEvent with hOld | hNew
      · exact h.body event hOld
      · rw [List.mem_singleton.mp hNew]
        exact hBody
    · intro _ fold hSome
      rw [hFold] at hSome
      obtain ⟨old, hOld, rfl⟩ := Option.map_eq_some_iff.mp hSome
      rw [h.folded hAlive old hOld, hSent, AsrDocumentFold.consumeAll_snoc]
      rfl
    · intro _
      rw [hSent, length_finalsOf_snoc, h.counted hAlive]
    · rw [hSent, length_keyframesOf_snoc, UInt32.ofNat_add, h.stills, hPending, UInt32.add_assoc]
      rfl
  · refine ⟨hIsSome, ?_, ?_, ?_, ?_⟩
    · rw [hSent]
      exact h.body
    · exact fun hAlive => (Bool.false_ne_true (hAlive.symm.trans hDead)).elim
    · exact fun hAlive => (Bool.false_ne_true (hAlive.symm.trans hDead)).elim
    · rw [hSent, h.stills, hPending]
      exact congrArg (count + ·) (UInt32.add_zero k.pending).symm

theorem WriterOpen.setSource (h : WriterOpen call writer count finals none k)
    (origin : DocumentOrigin) :
    WriterOpen call (writer.setSource origin) count finals (some origin) k := by
  refine ⟨?_, h.body, ?_, h.counted, h.stills⟩
  · rw [LockedWriter.setSource, Option.isSome_map, h.fold]
  · intro hAlive fold hSome
    obtain ⟨old, hOld, rfl⟩ := Option.map_eq_some_iff.mp hSome
    rw [h.folded hAlive old hOld]
    rfl

/-- However the writes of the end turn out, the client has a whole prefix of the ending. -/
theorem WriterOpen.finish {documentWritten trailerWritten ok : Bool}
    {trailer : TranscriptComplete} {hash : UInt64}
    (h : WriterOpen call writer count finals source k)
    (hServed : writer.finish call.parse documentWritten trailerWritten trailer = (ok, writer'))
    (hSource : source.isSome = call.options.emitDocument)
    (hHash : ∀ origin, source = some origin → origin.binaryHash = hash)
    (hFinals : trailer.segmentCount = UInt32.ofNat finals)
    (hStills : trailer.keyframeCount = count + k.pending) :
    Closed call hash writer'.sent ok := by
  have hCounts : writer.dead = false → trailer.Counts writer.sent := by
    intro hAlive
    refine ⟨?_, ?_⟩
    · rw [hFinals, h.counted hAlive]
    · rw [hStills, h.stills]
  unfold LockedWriter.finish at hServed
  split at hServed
  · obtain ⟨-, ⟨rfl, hAlive, -, hSent⟩ | ⟨rfl, -, hSent⟩⟩ := writeLocked_cases hServed
    · rw [hSent]
      exact .trailer h.body (hCounts hAlive)
    · rw [hSent]
      exact .neither h.body
  · rename_i fold hFold
    have hEmit : source.isSome = true := by
      rw [hSource, ← h.fold, hFold]
      rfl
    obtain ⟨origin, rfl⟩ := Option.isSome_iff_exists.mp hEmit
    dsimp only at hServed
    generalize hFirst : LockedWriter.writeLocked call.parse { writer with fold := none }
      documentWritten (.document (fold.consume call.parse (.complete trailer)).document) = first
      at hServed
    obtain ⟨sent, middle⟩ := first
    obtain ⟨-, ⟨rfl, hAlive, hAlive', hSent⟩ | ⟨rfl, -, hSent⟩⟩ := writeLocked_cases hFirst
    · rw [h.folded hAlive fold hFold] at hSent
      simp only [if_true] at hServed
      obtain ⟨-, ⟨rfl, -, -, hSent'⟩ | ⟨rfl, -, hSent'⟩⟩ := writeLocked_cases hServed
      · rw [hSent', hSent, List.append_assoc]
        exact .both h.body (hHash origin rfl) (hCounts hAlive)
      · rw [hSent', hSent]
        exact .document h.body (hHash origin rfl)
    · simp only [Bool.false_eq_true, if_false, Prod.mk.injEq] at hServed
      obtain ⟨rfl, rfl⟩ := hServed
      rw [hSent]
      exact .neither h.body

end Writer

end GrpcAsr.Asr
