import GrpcAsr.Media.IngressRuns

/-!
# Rejected input and the end of an ingress call

The read callback stores a rejection and returns an error, but it does not remember that
it failed: invoked again in the same native call, it reads the client's next message. As
long as the demuxer does not ask again, the first rejected message is the last one the
call consumes, no source event follows it, and the call reports that rejection.
-/

namespace GrpcAsr.Media

set_option autoImplicit false

open Interaction

/-- The chunks accepted before the first rejected message, why it was rejected, and the
messages read after it. -/
structure Rejection where
  before : List SourceChunk
  failure : Failure
  after : List IngestRequest

/-- The first message the service rejects, among those read after the opening one. -/
def firstRejection (config : ServiceConfig) (before : List SourceChunk) :
    List IngestRequest → Option Rejection
  | [] => none
  | message :: rest =>
    match verdict config before.length (totalBytes before) message, message with
    | some failure, _ => some ⟨before, failure, rest⟩
    | none, .chunk chunk => firstRejection config (before ++ [chunk]) rest
    | none, _ => none

namespace Decoding

section Heeds

variable (config : ServiceConfig) (call : Call) (factory : ProcessingFactory) (emitAudio : Bool)

/-- From a state on, whatever the registry answers, the read callback is not invoked once one of
the messages read was rejected, unless the call is cancelled by then. -/
def Heeds : {inside : Bool} → Decoding inside → Option Exception → Ingress factory.State → Prop
  | _, .done, _, _ => True
  | _, .throw _, _, _ => True
  | _, .emit draft next, readerError, s =>
    (Ingest.emitMedia config call factory emitAudio draft).Leads s fun _ => next.Heeds readerError
  | _, .enter inner, readerError, s => inner.Heeds readerError s
  | _, .pull true _ next, _, s =>
    (next .external).Heeds (some (.failure ⟨.cancelled, "media decode cancelled"⟩)) s
  | _, .pull false capacity next, readerError, s =>
    firstRejection config [] s.consumed.tail = none ∧
      (Routine.attempt (Ingest.readMedia config call capacity)).Leads s fun
        | .ok [] => (next .endOfFile).Heeds readerError
        | .ok data => (next (.bytes data)).Heeds readerError
        | .error error => (next .external).Heeds (some error)
  | _, .leave _, some _, _ => True
  | _, .leave next, none, s => next.Heeds none s

end Heeds

/-- Some invocation of the read callback finds the call cancelled. -/
def Cancels : {inside : Bool} → Decoding inside → Prop
  | _, .done => False
  | _, .throw _ => False
  | _, .emit _ next => next.Cancels
  | _, .enter inner => inner.Cancels
  | _, .pull true _ _ => True
  | _, .pull false _ next => ∃ pulled, (next pulled).Cancels
  | _, .leave next => next.Cancels

end Decoding

/-- The demuxer does not ask for more in a native call in which it has come upon a rejected message. -/
def Call.Heeds (config : ServiceConfig) (call : Call) : Prop :=
  ∀ (request accepted : OpenStream) (opened : StreamEvent), call.first = some (.open request) →
    accept config request = .ok accepted →
    let factory := config.processing.getD Ingest.noProcessing
    Ingest.Prepares call factory accepted opened
      (fun s => (accepted.decode.isSome || !accepted.speech.isEmpty) = true →
        call.decoding.Heeds config call factory accepted.decodeOptions.emitAudio none s)
      (.start call opened.cursor.streamId (.open request))

/-- The status of a rejection, or CANCELLED if the call was cancelled. -/
def Reports (call : Call) (failure : Failure) (status : Status) : Prop :=
  status = ⟨failure.code, failure.message⟩ ∨
    status.code = .cancelled ∧ (call.cancelled = true ∨ call.decoding.Cancels)

/-- The events of a call that has rejected a message: nothing was published for a later
one, and the terminal event reports the rejection. -/
def StopsAt (call : Call) (rejection : Rejection) (result : IngestResult)
    (own : List StreamEvent) : Prop :=
  rejection.after = [] ∧ (sourceChunks own).length = rejection.before.length ∧
    contents (sourceChunks own) = contents rejection.before ∧
    Reports call rejection.failure result.status ∧
    ∃ init event closed, own = init ++ [event] ∧ event.closed? = some closed ∧ Unclosed init ∧
      closed.statusCode = result.status.code.value ∧ closed.message = result.status.message

/-- If the call has rejected a message, it stopped there. -/
def FailStop (config : ServiceConfig) (call : Call) (result : IngestResult)
    (published : List (Nat × StreamEvent)) (index : Nat) : Prop :=
  ∀ rejection, firstRejection config [] result.consumed.tail = some rejection →
    IsIncarnation index published (eventsBy index published) ∧
      StopsAt call rejection result (eventsBy index published)

section Rejections

variable {config : ServiceConfig} {call : Call}

/-- No chunk of the list is rejected after those before it. -/
def Accepted (config : ServiceConfig) (chunks : List SourceChunk) : Prop :=
  ∀ rest, firstRejection config [] (chunks.map .chunk ++ rest) = firstRejection config chunks rest

theorem Accepted.snoc {chunks : List SourceChunk} {chunk : SourceChunk}
    (h : Accepted config chunks)
    (hVerdict : verdict config chunks.length (totalBytes chunks) (.chunk chunk) = none) :
    Accepted config (chunks ++ [chunk]) := by
  intro rest
  rw [List.map_append, List.map_singleton, List.append_assoc, h, List.singleton_append]
  simp only [firstRejection, hVerdict]

/-- The messages after the opening one are accepted chunks, then the finish, if it came. -/
def InOrder (config : ServiceConfig) (request : OpenStream) (core : Core) : Prop :=
  ∃ chunks, Accepted config chunks ∧ core.Counts chunks ∧
    core.consumed = .open request :: chunks.map .chunk ++
      (if core.explicitFinish then [.finish core.finish] else [])

/-- One more message was read, and it was rejected. -/
def Refused (config : ServiceConfig) (call : Call) (request : OpenStream) (error : Exception)
    (core : Core) : Prop :=
  ∃ before message failure, InOrder config request before ∧ before.explicitFinish = false ∧
    verdict config before.count before.bytes message = some failure ∧
    core = before.heard (some message) ∧
    (error = .failure failure ∨
      error = .failure ⟨.cancelled, "media decode cancelled"⟩ ∧ call.decoding.Cancels)

/-- What an exception leaves of the input. -/
def Interrupted (config : ServiceConfig) (call : Call) (request : OpenStream) (error : Exception)
    (core : Core) : Prop :=
  InOrder config request core ∨ Refused config call request error core

theorem inOrder_admits (config : ServiceConfig) (call : Call) (request : OpenStream) :
    Core.Admits config (InOrder config request) (Interrupted config call request) where
  chunk := by
    rintro core chunk ⟨chunks, hAccepted, hCounts, hConsumed⟩ hMore hVerdict
    rw [hCounts.1, hCounts.2.1] at hVerdict
    refine ⟨chunks ++ [chunk], hAccepted.snoc hVerdict, Core.Counts.snoc hCounts chunk, ?_⟩
    rw [hMore] at hConsumed
    simp only [Core.counted, Core.heard, hMore, hConsumed]
    simp
  finish := by
    rintro core finish ⟨chunks, hAccepted, hCounts, hConsumed⟩ hMore
    refine ⟨chunks, hAccepted, hCounts, ?_⟩
    rw [hMore] at hConsumed
    simp only [Core.finished, Core.heard, hConsumed]
    simp
  interrupted _ hCore := .inl hCore
  rejected hCore hMore hVerdict := .inr ⟨_, _, _, hCore, hMore, hVerdict, rfl, .inl rfl⟩

/-- Well-formed input contains no rejection. -/
theorem InOrder.firstRejection_eq {request : OpenStream} {core : Core}
    (h : InOrder config request core) : firstRejection config [] core.consumed.tail = none := by
  obtain ⟨chunks, hAccepted, -, hConsumed⟩ := h
  rw [hConsumed, List.cons_append, List.tail_cons, hAccepted]
  cases core.explicitFinish with
  | false => rfl
  | true => rfl

/-- A rejected message is the last one read, and the counters are those of the chunks
before it. -/
theorem Refused.firstRejection_eq {request : OpenStream} {error : Exception} {core : Core}
    (h : Refused config call request error core) :
    ∃ chunks failure, firstRejection config [] core.consumed.tail = some ⟨chunks, failure, []⟩ ∧
      core.Counts chunks ∧ (error = .failure failure ∨
        error = .failure ⟨.cancelled, "media decode cancelled"⟩ ∧ call.decoding.Cancels) := by
  obtain ⟨before, message, failure, ⟨chunks, hAccepted, hCounts, hConsumed⟩, hMore, hVerdict, rfl,
    hError⟩ := h
  refine ⟨chunks, failure, ?_, hCounts, hError⟩
  rw [hMore] at hConsumed
  rw [hCounts.1, hCounts.2.1] at hVerdict
  rw [Core.heard, hConsumed, List.cons_append, List.cons_append, List.tail_cons, List.append_assoc,
    hAccepted]
  simp [firstRejection, hVerdict]

end Rejections

namespace Ingest

variable {config : ServiceConfig} {call : Call} {factory : ProcessingFactory} {emitAudio : Bool}
  {Y : Core → Prop} {Z : Exception → Core → Prop}

/-- What is known of the input while the last failure of the read callback waits. -/
def Held (Y : Core → Prop) (Z : Exception → Core → Prop) : Option Exception → Core → Prop
  | none => Y
  | some error => Z error

/-- What a read of the callback leaves, whether it gave bytes or failed. -/
def Answered {P : Type} (Y : Core → Prop) (Z : Exception → Core → Prop)
    (answer : Except Exception Bytes) (s : Ingress P) (stake : Stake) : Prop :=
  match answer with
  | .ok _ => Owns Y s stake
  | .error error => Failed (Z error) error s stake

theorem Held.of (hY : Core.Admits config Y Z) (readerError : Option Exception) {core : Core}
    (h : Y core) : Held Y Z readerError core := by
  cases readerError with
  | none => exact h
  | some error => exact hY.interrupted error h

theorem decodeMedia_heeds (hY : Core.Admits config Y Z)
    (hClean : ∀ error core, Z error core → firstRejection config [] core.consumed.tail = none → Y core)
    {inside : Bool} (d : Decoding inside)
    (hCancelled : d.Cancels → ∀ error core, Z error core →
      Z (.failure ⟨.cancelled, "media decode cancelled"⟩) core) (readerError : Option Exception)
    (hOutside : inside = true ∨ readerError = none)
    (hGenuine : ∀ error, readerError = some error → error.Genuine) :
    Guards (fun s g => Owns (Held Y Z readerError) s g ∧
        d.Heeds config call factory emitAudio readerError s)
      (decodeMedia config call factory emitAudio d readerError) (fun _ => Owns Y) Z := by
  induction d generalizing readerError with
  | done =>
    obtain rfl := hOutside.resolve_left Bool.false_ne_true
    rw [decodeMedia]
    exact .pure _ fun s g h => h.1
  | throw error =>
    obtain rfl := hOutside.resolve_left Bool.false_ne_true
    rw [decodeMedia]
    exact .throw _ fun s g h => ⟨error.property, h.1.imp (hY.interrupted _)⟩
  | emit draft next ih =>
    obtain rfl := hOutside.resolve_left Bool.false_ne_true
    rw [decodeMedia]
    exact .bind ((emitMedia_keeps draft).guards fun error core => hY.interrupted error).leads fun _ =>
      ih hCancelled none (.inr rfl) hGenuine
  | enter inner ih =>
    obtain rfl := hOutside.resolve_left Bool.false_ne_true
    rw [decodeMedia]
    exact ih hCancelled none (.inl rfl) hGenuine
  | leave next ih =>
    cases readerError with
    | none =>
      rw [decodeMedia]
      exact ih hCancelled none (.inr rfl) hGenuine
    | some error =>
      rw [decodeMedia]
      exact .throw _ fun s g h => ⟨hGenuine error rfl, h.1⟩
  | pull cancelled capacity next ih =>
    cases cancelled with
    | true =>
      rw [decodeMedia]
      refine (ih .external (fun _ => hCancelled trivial) _ (.inl rfl) ?_).pre fun s g h =>
        ⟨h.1.imp ?_, h.2⟩
      · rintro _ ⟨⟩
        exact StatusCode.noConfusion
      · cases readerError with
        | none => exact hY.interrupted _
        | some error => exact hCancelled trivial error s.core
    | false =>
      -- As no message was rejected so far, the input is in order, whatever else has failed.
      have hInOrder : ∀ core, Held Y Z readerError core →
          firstRejection config [] core.consumed.tail = none → Y core := by
        cases readerError with
        | none => exact fun core hCore _ => hCore
        | some error => exact hClean error
      have hRead : Guards (Owns Y)
          (Routine.attempt (readMedia config call capacity : Ingest factory.State Bytes))
          (Answered Y Z) Z := .attempt (readMedia_triple hY capacity)
      rw [decodeMedia]
      rintro s g ⟨hOwns, hHeeds⟩
      rw [Decoding.Heeds] at hHeeds
      have hStart := hOwns.imp fun hCore => hInOrder _ hCore hHeeds.1
      refine Routine.Triple.bind hRead.leads (fun answer => ?_) s g ⟨hStart, hHeeds.2⟩
      cases answer with
      | error error =>
        rintro s g ⟨⟨hThrown, hOwns⟩, hHeeds⟩
        refine ih .external (fun h => hCancelled ⟨_, h⟩) (some error) (.inl rfl) ?_ s g ⟨hOwns, hHeeds⟩
        rintro _ ⟨⟩
        exact hThrown
      | ok bytes =>
        cases bytes with
        | nil =>
          exact (ih .endOfFile (fun h => hCancelled ⟨_, h⟩) readerError (.inl rfl) hGenuine).pre
            fun s g h => ⟨h.1.imp (Held.of hY readerError), h.2⟩
        | cons byte data =>
          exact (ih (.bytes (byte :: data)) (fun h => hCancelled ⟨_, h⟩) readerError (.inl rfl)
            hGenuine).pre fun s g h => ⟨h.1.imp (Held.of hY readerError), h.2⟩

end Ingest

section Calls

variable {P : Type} {config : ServiceConfig} {call : Call}

/-- Cancellation replaces the reported status and nothing else. -/
theorem Interrupted.cancelled {request : OpenStream} (hCancels : call.decoding.Cancels)
    (error : Exception) (core : Core) (h : Interrupted config call request error core) :
    Interrupted config call request (.failure ⟨.cancelled, "media decode cancelled"⟩) core := by
  rcases h with hOrder | ⟨before, message, failure, hBefore, hMore, hVerdict, hCore, -⟩
  · exact .inl hOrder
  · exact .inr ⟨before, message, failure, hBefore, hMore, hVerdict, hCore, .inr ⟨rfl, hCancels⟩⟩

/-- What an exception leaves without a rejected message is in order. -/
theorem Interrupted.inOrder {request : OpenStream} (error : Exception) (core : Core)
    (h : Interrupted config call request error core)
    (hNone : firstRejection config [] core.consumed.tail = none) : InOrder config request core := by
  rcases h with hOrder | hRefused
  · exact hOrder
  · obtain ⟨chunks, failure, hFirst, -⟩ := hRefused.firstRejection_eq
    rw [hNone] at hFirst
    cases hFirst

theorem finalStatus_error {s : Ingress P} {error : Exception} (h : error.Genuine) :
    finalStatus config call s (.error error) =
      if call.cancelled then ⟨.cancelled, "ingress cancelled"⟩ else error.status := by
  have hNotOk : error.status.isOk = false := by
    rw [Status.isOk]
    exact decide_eq_false h.status_code
  simp [finalStatus, bodyStatus, hNotOk]

/-- What the body leaves: the input in order, or one rejected message. -/
def BodyStops (config : ServiceConfig) (call : Call) (request : OpenStream)
    (result : Except Exception Unit) (s : Ingress P) (stake : Stake) : Prop :=
  match result with
  | .ok _ => Owns (InOrder config request) s stake
  | .error error => Failed (Interrupted config call request error) error s stake

/-- The call has stopped at its first rejection, if there was one. -/
def Stopped (config : ServiceConfig) (call : Call) (result : IngestResult) : Stake → Prop
  | none => firstRejection config [] result.consumed.tail = none
  | some (_, own) => ∀ rejection,
      firstRejection config [] result.consumed.tail = some rejection →
        StopsAt call rejection result own

theorem finalize_stops {request : OpenStream} {result : Except Exception Unit} {s : Ingress P}
    {stake : Stake} (h : BodyStops config call request result s stake) :
    (finalize config call s result).Meets registryContract stake (Stopped config call) := by
  have hOwns : Owns (fun core => InOrder config request core ∨ ∃ error, result = .error error ∧
      error.Genuine ∧ Refused config call request error core) s stake := by
    cases result with
    | ok _ => exact h.imp .inl
    | error error =>
      refine h.2.imp ?_
      rintro (hOrder | hRefused)
      · exact .inl hOrder
      · exact .inr ⟨error, rfl, h.1, hRefused⟩
  obtain ⟨hCore, home, own, rfl, ⟨hId, hNamed⟩, hOpen, hCounts⟩ := hOwns
  rw [finalize, if_neg (by simpa using hNamed)]
  refine ⟨home, own, rfl, hId, hOpen, fun event hEvent => ?_⟩
  rcases hCore with hOrder | ⟨error, rfl, hGenuine, hRefused⟩
  · have hNone : ∀ status, Stopped config call ⟨status, s.consumed⟩ (some (home, own ++ [event])) := by
      intro status rejection hRejection
      rw [show firstRejection config [] s.consumed.tail = none from hOrder.firstRejection_eq]
        at hRejection
      cases hRejection
    dsimp only
    split <;> exact hNone _
  · obtain ⟨chunks, failure, hFirst, hChunks, hError⟩ := hRefused.firstRejection_eq
    have hSource : event.source? = none := by rw [StreamEvent.source?, hEvent]
    have hSources : sourceChunks (own ++ [event]) = sourceChunks own := by
      rw [sourceChunks, List.filterMap_append, List.filterMap_cons, hSource, List.filterMap_nil,
        List.append_nil]
      rfl
    have hReports : Reports call failure (finalStatus config call s (.error error)) := by
      rw [finalStatus_error hGenuine]
      cases hCancelled : call.cancelled with
      | true => exact .inr ⟨rfl, .inl hCancelled⟩
      | false =>
        rcases hError with rfl | ⟨rfl, hCancels⟩
        · exact .inl rfl
        · exact .inr ⟨rfl, .inr hCancels⟩
    have hNotOk : (finalStatus config call s (.error error)).isOk = false := by
      rw [finalStatus_error hGenuine]
      split
      · rfl
      · exact decide_eq_false hGenuine.status_code
    dsimp only
    rw [hNotOk, Bool.and_false, if_neg Bool.false_ne_true]
    intro rejection hRejection
    obtain rfl := Option.some.inj (hFirst.symm.trans hRejection)
    refine ⟨rfl, ?_, ?_, hReports, own, event,
      .of config s (finalStatus config call s (.error error)), rfl, ?_, hOpen, rfl, rfl⟩
    · rw [hSources]
      exact hCounts.1.symm.trans hChunks.1
    · rw [hSources]
      exact hCounts.2.2.symm.trans hChunks.2.2
    · rw [StreamEvent.closed?, hEvent]

theorem start_inOrder {request : OpenStream} {opened : StreamEvent}
    (hOpened : opened.opened?.isSome = true) (hId : opened.cursor.streamId ≠ []) :
    Owns (InOrder config request) (.start call opened.cursor.streamId (.open request) : Ingress P)
      (some (opened.cursor.home, [opened])) :=
  ⟨⟨[], fun _ => rfl, ⟨rfl, rfl, rfl⟩, rfl⟩, (@start_owns P call request opened hOpened hId).2⟩

theorem process_stops (config : ServiceConfig) (call : Call) (hHeeds : call.Heeds config) :
    (process config call).Meets registryContract none (Stopped config call) := by
  unfold process
  split
  · rename_i request hFirst
    cases hAccept : accept config request with
    | error error => rfl
    | ok accepted =>
      refine ⟨rfl, fun error => rfl, fun opened hOpened hId => ?_⟩
      refine Program.Meets.bind ?_
      have hAdmits := inOrder_admits config call request
      refine (Ingest.ingest_prepared hAdmits ?_ _ _
        ⟨start_inOrder hOpened hId, hHeeds request accepted opened hFirst hAccept⟩).imp
          fun result stake hResult => ?_
      · rw [Ingest.decodeIfAsked]
        split
        · rename_i hAsked
          refine (Ingest.decodeMedia_heeds hAdmits Interrupted.inOrder _ Interrupted.cancelled none
            (.inr rfl) ?_).pre fun s g h => ⟨h.1, h.2 hAsked⟩
          rintro _ ⟨⟩
        · exact .pure _ fun s g h => h.1
      · have hBody : BodyStops config call request result.1 result.2 stake := by
          rcases result with ⟨error | _, s⟩
          · exact hResult
          · exact hResult.imp And.left
        exact finalize_stops hBody
  · change firstRejection config [] call.first.toList.tail = none
    cases call.first <;> rfl

end Calls

/-- While its demuxer does not invoke the read callback again after a rejected message, every call
returns once it has had enough turns, and after any interleaving each call that has
returned stopped at the first message it rejected. -/
theorem ingress_fail_stop (deployment : Deployment) (turns : List (Turn Moment Listening))
    (index : Nat) (call : Call) (hCall : deployment.calls[index]? = some call)
    (hHeeds : call.Heeds deployment.config) :
    (∀ moments, ∃ n result,
      (deployment.run (turns ++ Pool.turnsOf index moments n)).result? index = some result) ∧
    ∀ result, (deployment.run turns).result? index = some result →
      FailStop deployment.config call result (deployment.run turns).state.published index := by
  refine ⟨deployment.returns turns (List.getElem?_eq_some_iff.mp hCall).1, fun result hDone => ?_⟩
  have hPost : ∀ other call', deployment.calls[other]? = some call' →
      (process deployment.config call').Meets registryContract none fun result stake =>
        other = index → Stopped deployment.config call result stake := by
    intro other call' hCall'
    by_cases hSame : other = index
    · subst hSame
      obtain rfl := Option.some.inj (hCall.symm.trans hCall')
      exact (process_stops _ _ hHeeds).imp fun _ _ h _ => h
    · exact (process_meets deployment.config call').imp fun _ _ _ h => absurd h hSame
  obtain ⟨stakes, hLedger, hThreads⟩ := deployment.keeps hPost turns
  have hStopped := hThreads index _ (Pool.result?_eq_some.mp hDone) rfl
  intro rejection hRejection
  cases hStake : stakes index with
  | none =>
    rw [hStake] at hStopped
    rw [show firstRejection _ _ _ = none from hStopped] at hRejection
    cases hRejection
  | some stake =>
    obtain ⟨home, own⟩ := stake
    obtain ⟨hEvents, hIncarnation⟩ := hLedger.incarnation hStake
    rw [hStake] at hStopped
    rw [hEvents]
    exact ⟨hIncarnation, hStopped rejection hRejection⟩

/-- A call that decodes what it is sent: an empty chunk, then a proper one. -/
def carelessCall (decoding : Decoding false) : Call where
  http := false
  first := some (.open ⟨talkId, some (.direct ⟨ascii "talk", []⟩), [], some ⟨true, false, []⟩⟩)
  arrivals := [⟨none, .ok (.chunk ⟨1, 0, [], []⟩)⟩, ⟨none, .ok (.chunk ⟨1, 0, [7], []⟩)⟩]
  writeOk _ := true
  decoding := decoding
  cancelled := false

def carelessTalk (decoding : Decoding false) : Deployment where
  config := ⟨(smallServer 4096).native, (smallServer 4096).limits, none, [], []⟩
  epoch := ascii "epoch"
  producer := default
  calls := [carelessCall decoding]

def carelessTurns : List (Turn Moment Listening) :=
  [0, 0, 0].map fun index => .thread index ⟨⟨0, 0⟩, 0, fun _ => 1, fun _ => 2⟩

/-- A demuxer that gives up after the first failed read. -/
def patientDemuxer : Decoding false := .enter (.pull false 4096 fun _ => .leave .done)

/-- A demuxer that tries once more. -/
def eagerDemuxer : Decoding false :=
  .enter (.pull false 4096 fun _ => .pull false 4096 fun _ => .leave .done)

theorem patientDemuxer_heeds {config : ServiceConfig} {call : Call} {factory : ProcessingFactory}
    {emitAudio : Bool} {s : Ingress factory.State}
    (h : firstRejection config [] s.consumed.tail = none) :
    patientDemuxer.Heeds config call factory emitAudio none s := by
  rw [patientDemuxer, Decoding.Heeds, Decoding.Heeds]
  refine ⟨h, .of fun answer s => ?_⟩
  rcases answer with error | _ | _ <;> simp only [Decoding.Heeds]

theorem carelessCall_heeds :
    (carelessCall patientDemuxer).Heeds (carelessTalk patientDemuxer).config := by
  rintro request accepted opened ⟨⟩ ⟨⟩ factory _ _ _ _ _
  exact patientDemuxer_heeds rfl

theorem ingress_fail_stop_empty :
    (((carelessTalk patientDemuxer).run carelessTurns).result? 0).map
        (fun result => (result.status, result.consumed.length)) =
      some (⟨.invalidArgument, "empty source chunk"⟩, 2) ∧
    ∀ result, ((carelessTalk patientDemuxer).run carelessTurns).result? 0 = some result →
      FailStop (carelessTalk patientDemuxer).config (carelessCall patientDemuxer) result
        ((carelessTalk patientDemuxer).run carelessTurns).state.published 0 :=
  ⟨by decide +kernel, (ingress_fail_stop (carelessTalk patientDemuxer) carelessTurns 0
    (carelessCall patientDemuxer) rfl carelessCall_heeds).2⟩

/-- The demuxer's second pull takes and publishes the chunk after the rejected one. -/
theorem rejected_input_consumed_further :
    ¬ ∀ (deployment : Deployment) (turns : List (Turn Moment Listening)) (index : Nat) (call : Call)
      (result : IngestResult), deployment.calls[index]? = some call →
      (deployment.run turns).result? index = some result →
      FailStop deployment.config call result (deployment.run turns).state.published index := by
  intro h
  have hAfter : (((carelessTalk eagerDemuxer).run carelessTurns).result? 0).bind (fun result =>
      (firstRejection (carelessTalk eagerDemuxer).config [] result.consumed.tail).map fun rejection =>
        rejection.after) = some [.chunk ⟨1, 0, [7], []⟩] := by decide +kernel
  obtain ⟨result, hDone, hRejection⟩ := Option.bind_eq_some_iff.mp hAfter
  obtain ⟨rejection, hFirst, hMore⟩ := Option.map_eq_some_iff.mp hRejection
  have hStops := h (carelessTalk eagerDemuxer) carelessTurns 0 (carelessCall eagerDemuxer) result rfl
    hDone rejection hFirst
  rw [hStops.2.1] at hMore
  cases hMore

end GrpcAsr.Media
