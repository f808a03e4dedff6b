import GrpcAsr.Media.HttpRelay
import GrpcAsr.Media.IngressRuns

/-!
# Pulling an HTTP source

`Pull` reads the entity of an HTTP response and hands it to `process` as the chunks and the
finish of an ingress call. Here the reads of the HTTP input, the call and the registry are put
together: a pull that is reported complete has published the entity, all of it and nothing else.
-/

namespace GrpcAsr.Media

set_option autoImplicit false

open Interaction

/-- The counters of `Pull`. -/
structure PullCounts where
  count : Nat
  bytes : Nat

/-- What happens to the HTTP input of a pull: callbacks outside reads, and reads. Before a read
comes back, the response may be described. -/
inductive PullAction
  | callback (call : Callback)
  | read (turns : List ReadTurn) (describe : Option HttpResponseInfo)

/-- No pause of the transfer fails. -/
def PullAction.Pauses : PullAction → Prop
  | .callback _ => True
  | .read turns _ => ∀ turn ∈ turns, turn.pauseOk = true

/-- A failure as it is thrown. No read fails with the OK code. -/
def Failure.raised (failure : Failure) : Raised :=
  if h : failure.code ≠ .ok then ⟨.failure failure, h⟩ else ⟨.logicError failure.message, trivial⟩

/-- The message that a read becomes. -/
def PullCounts.message (s : PullCounts) (data : Bytes) :
    Except Failure (IngestRequest × PullCounts) :=
  if data.isEmpty then .ok (.finish ⟨s.count, s.bytes, []⟩, s)
  else if s.count = 2 ^ 64 - 1 ∨ 2 ^ 64 - 1 - s.bytes < data.length then
    .error ⟨.resourceExhausted, "HTTP source accounting overflow"⟩
  else .ok (.chunk ⟨s.count + 1, s.bytes, data, []⟩, ⟨s.count + 1, s.bytes + data.length⟩)

/-- What the reads of a pull give `process`, as far as they come back. -/
def pullArrivals (config : ServiceConfig) : PullCounts → HttpWorld → List PullAction → List Arrival
  | _, _, [] => []
  | s, w, .callback call :: actions => pullArrivals config s (w.callback call) actions
  | s, w, .read turns describe :: actions =>
    let ran := w.act (.read config.limits.maxChunkBytes turns)
    match ran.1.getLast? with
    | some (.returned data _) =>
      match s.message data with
      | .ok (message, s) => ⟨describe, .ok message⟩ :: pullArrivals config s ran.2 actions
      | .error failure => ⟨describe, .error failure.raised⟩ :: pullArrivals config s ran.2 actions
    | some (.failed failure) =>
      ⟨describe, .error failure.raised⟩ :: pullArrivals config s ran.2 actions
    | some .invalidArgument =>
      ⟨describe, .error ⟨.invalidArgument "HTTP output buffer required", trivial⟩⟩ ::
        pullArrivals config s ran.2 actions
    | some (.waited _) | none => []

/-- The call of `process` that a pull makes. -/
def pull (config : ServiceConfig) (entity : Bytes) (actions : List PullAction)
    (request : OpenStream) (call : Call) : Call :=
  { call with
    http := true
    first := some (.open request)
    arrivals := pullArrivals config ⟨0, 0⟩ (HttpWorld.start entity) actions }

/-! ## The entity in the arrivals -/

theorem readLoop_last {capacity : Nat} {turns : List ReadTurn} {w v : HttpWorld} {data : Bytes}
    (h : (HttpWorld.readLoop capacity turns w).1.getLast? = some (.returned data v)) :
    ∃ before, (HttpWorld.readLoop capacity turns w).1 = before ++ [.returned data v] ∧
      returnedBytes before = [] := by
  induction turns generalizing w with
  | nil => cases h
  | cons turn turns ih =>
    rw [HttpWorld.readLoop] at h ⊢
    cases hStep : HttpWorld.readTurn capacity turn w with
    | returned other next =>
      simp only [hStep] at h ⊢
      cases h
      exact ⟨[], rfl, rfl⟩
    | failed failure next =>
      simp only [hStep] at h
      cases h
    | again next =>
      simp only [hStep] at h ⊢
      exact ih h
    | waited next ok =>
      cases ok with
      | false =>
        simp only [hStep] at h
        cases h
      | true =>
        simp only [hStep] at h ⊢
        have hLater : (HttpWorld.readLoop capacity turns next).1.getLast? =
            some (.returned data v) := by
          cases hRest : (HttpWorld.readLoop capacity turns next).1 with
          | nil =>
            rw [hRest] at h
            cases h
          | cons event events =>
            rw [hRest, List.getLast?_cons_cons] at h
            exact h
        obtain ⟨before, hBefore, hNone⟩ := ih hLater
        refine ⟨.waited next :: before, ?_, ?_⟩
        · rw [hBefore]
          rfl
        · rw [returnedBytes, List.flatMap_cons]
          exact hNone

/-- The arrivals that carry messages. -/
def Carry (past : List Arrival) (messages : List IngestRequest) : Prop :=
  past.map Arrival.result = messages.map Except.ok

/-- Chunks and a finish out of the reads of an HTTP input are the rest of the entity. -/
theorem pullArrivals_entity {config : ServiceConfig} {entity : Bytes} {actions : List PullAction}
    (hActions : ∀ action ∈ actions, action.Pauses) {s : PullCounts} {w : HttpWorld}
    {returned : Bytes} (h : Queue entity returned w) {past : List Arrival}
    (hPast : past <+: pullArrivals config s w actions) {chunks : List SourceChunk}
    {finish : FinishStream} (hCarry : Carry past (chunks.map .chunk ++ [.finish finish])) :
    returned ++ contents chunks = entity := by
  induction actions generalizing s w returned past chunks with
  | nil =>
    rw [pullArrivals, List.prefix_nil] at hPast
    subst hPast
    exact absurd hCarry.symm (by simp)
  | cons action actions ih =>
    obtain ⟨hAction, hRest⟩ := List.forall_mem_cons.mp hActions
    cases action with
    | callback call =>
      rw [pullArrivals] at hPast
      exact ih hRest (h.callback call) hPast hCarry
    | read turns describe =>
      obtain ⟨arrival, past, rfl⟩ : ∃ arrival later, past = arrival :: later := by
        cases past with
        | nil => exact absurd hCarry.symm (by simp)
        | cons arrival later => exact ⟨arrival, later, rfl⟩
      have hFailed : ∀ {error : Raised} {more : List Arrival},
          arrival :: past <+: ⟨describe, .error error⟩ :: more →
            returned ++ contents chunks = entity := by
        intro error more hError
        obtain ⟨rfl, -⟩ := List.cons_prefix_cons.mp hError
        cases chunks <;> cases hCarry
      by_cases hCapacity : config.limits.maxChunkBytes = 0
      · rw [pullArrivals, HttpWorld.act, if_pos hCapacity] at hPast
        exact hFailed hPast
      · have hAct : w.act (.read config.limits.maxChunkBytes turns) =
            HttpWorld.readLoop config.limits.maxChunkBytes turns w := if_neg hCapacity
        obtain ⟨⟨lost, hQueue, hLost⟩, hEnded⟩ :=
          h.readLoop (Nat.pos_of_ne_zero hCapacity) turns
        rw [hLost hAction, List.append_nil] at hQueue
        rw [pullArrivals, hAct] at hPast
        split at hPast
        · rename_i data v hLast
          obtain ⟨before, hEvents, hNothing⟩ := readLoop_last hLast
          have hBytes : returnedBytes (HttpWorld.readLoop config.limits.maxChunkBytes turns w).1 =
              data := by
            rw [hEvents, returnedBytes_append, hNothing]
            exact List.append_nil data
          rw [hBytes] at hQueue
          rw [PullCounts.message] at hPast
          by_cases hEmpty : data.isEmpty = true
          · obtain rfl := List.isEmpty_iff.mp hEmpty
            rw [if_pos hEmpty] at hPast
            obtain ⟨rfl, -⟩ := List.cons_prefix_cons.mp hPast
            have hEnd := (hEnded hAction before v [] hEvents).2.2.2.2
            rw [hNothing, List.append_nil] at hEnd
            cases chunks with
            | nil =>
              rw [contents, List.flatMap_nil, List.append_nil]
              exact hEnd
            | cons chunk chunks => cases hCarry
          · rw [if_neg hEmpty] at hPast
            split at hPast
            · rename_i message s' hMessage
              split at hMessage
              · cases hMessage
              · obtain ⟨rfl, rfl⟩ := Prod.mk.inj (Except.ok.inj hMessage)
                obtain ⟨rfl, hLater⟩ := List.cons_prefix_cons.mp hPast
                cases chunks with
                | nil => cases hCarry
                | cons chunk chunks =>
                  obtain ⟨hFirst, hCarried⟩ := List.cons.inj hCarry
                  obtain rfl := IngestRequest.chunk.inj (Except.ok.inj hFirst)
                  rw [contents, List.flatMap_cons, ← List.append_assoc]
                  exact ih hRest hQueue hLater hCarried
            · exact hFailed hPast
        · exact hFailed hPast
        · exact hFailed hPast
        · cases List.prefix_nil.mp hPast
        · cases List.prefix_nil.mp hPast

/-! ## What a call has read -/

namespace Ingest

open Routine

variable {P : Type} {config : ServiceConfig} {call : Call} {factory : ProcessingFactory}
  {emitAudio : Bool}

/-- A condition on what is to come and on what was consumed. -/
def On (I : List Arrival → List IngestRequest → Prop) (s : Ingress P) (_ : Unit) : Prop :=
  I s.arrivals s.consumed

/-- A routine that reads nothing, however it ends. -/
def Aside {α : Type} (m : Ingest P α) : Prop :=
  ∀ I, Routine.Triple Contract.any (On I) m (fun _ => On I) fun _ => On I

/-- The call has read messages only, and has put all of them on record. -/
def Read (call : Call) (request : OpenStream) (coming : List Arrival)
    (consumed : List IngestRequest) : Prop :=
  ∃ past messages, call.arrivals = past ++ coming ∧ Carry past messages ∧
    consumed = .open request :: messages

/-- A routine that returns only if every read so far gave a message. -/
def Reads {α : Type} (call : Call) (request : OpenStream) (m : Ingest P α) : Prop :=
  Routine.Triple Contract.any (On (Read call request)) m (fun _ => On (Read call request))
    fun _ _ _ => True

variable {request : OpenStream}

theorem Aside.reads {α : Type} {m : Ingest P α} (h : Aside m) : Reads call request m :=
  (h _).except fun _ _ _ _ => trivial

theorem Reads.bind {α β : Type} {m : Ingest P α} {f : α → Ingest P β} (h : Reads call request m)
    (hf : ∀ a, Reads call request (f a)) : Reads call request (m >>= f) := Routine.Triple.bind h hf

theorem Aside.bind {α β : Type} {m : Ingest P α} {f : α → Ingest P β} (h : Aside m)
    (hf : ∀ a, Aside (f a)) : Aside (m >>= f) := fun I => Routine.Triple.bind (h I) fun a => hf a I

theorem Aside.pure {α : Type} (a : α) : Aside (Pure.pure a : Ingest P α) :=
  fun _ => .pure _ fun _ _ h => h

theorem Aside.throw {α : Type} (error : Exception) : Aside (Routine.throw error : Ingest P α) :=
  fun _ => .throw _ fun _ _ h => h

theorem Aside.get : Aside (Routine.get : Ingest P (Ingress P)) := fun _ => .get fun _ _ h => h

theorem Aside.modify {f : Ingress P → Ingress P} (hArrivals : ∀ s, (f s).arrivals = s.arrivals)
    (hConsumed : ∀ s, (f s).consumed = s.consumed) : Aside (Routine.modify f : Ingest P Unit) := by
  intro I
  apply Routine.Triple.modify
  intro s g h
  rw [On, hArrivals, hConsumed]
  exact h

theorem registry_aside (request : RegistryRequest) :
    Aside (registry request : Ingest P StreamEvent) := by
  intro I
  refine .bind (Q := fun _ => On I) (.perform fun s g h reply => h) fun reply => ?_
  cases reply with
  | ok event => exact Aside.pure _ I
  | error error => exact Aside.throw _ I

theorem checkedWrite_aside (error : Failure) :
    Aside (do if ← write call then return () else Routine.throw (.failure error) :
      Ingest P Unit) := by
  apply Aside.bind
  · apply Aside.bind Aside.get
    intro s
    exact Aside.bind (Aside.modify (fun _ => rfl) fun _ => rfl) fun _ => Aside.pure _
  · intro sent
    cases sent with
    | true => exact Aside.pure _
    | false => exact Aside.throw _

theorem send_aside (event : StreamEvent) : Aside (send call event : Ingest P Unit) :=
  checkedWrite_aside _

theorem describeAll_aside (infos : List HttpResponseInfo) :
    Aside (describeAll config call infos : Ingest P Unit) := by
  induction infos with
  | nil => exact Aside.pure _
  | cons info infos ih =>
    apply Aside.bind
    · apply Aside.bind Aside.get
      intro s
      exact (registry_aside _).bind fun _ => checkedWrite_aside _
    · intro _
      exact ih

theorem takeMessage_aside (message : IngestRequest) :
    Aside (takeMessage config call message : Ingest P Bool) := by
  cases message with
  | finish finish =>
    exact Aside.bind (Aside.modify (fun _ => rfl) fun _ => rfl) fun _ => Aside.pure _
  | chunk chunk =>
    apply Aside.bind
    · apply Aside.bind Aside.get
      intro s
      apply Aside.bind
      · cases checkChunk config s chunk with
        | error error => exact Aside.throw _
        | ok _ => exact Aside.pure _
      · intro _
        dsimp only
        refine Aside.bind (Aside.modify (fun _ => rfl) fun _ => rfl) fun _ => ?_
        refine Aside.bind (registry_aside _) fun event => ?_
        exact Aside.bind (send_aside event) fun _ => Aside.modify (fun _ => rfl) fun _ => rfl
    · intro _
      exact Aside.pure _
  | «open» request => exact Aside.throw _
  | notSet => exact Aside.throw _

/-- A read that returns a message has put it on record. -/
theorem read_reads : Reads call request (read config call : Ingest P (Option IngestRequest)) := by
  refine Routine.Triple.bind (Q := fun s s' g => s' = s ∧ On (Read call request) s g)
    (.get fun s g h => ⟨rfl, h⟩) fun s => ?_
  cases hArrivals : s.arrivals with
  | nil =>
    apply Routine.Triple.pure
    rintro s' g ⟨rfl, h⟩
    exact h
  | cons arrival rest =>
    let Taken (coming : List Arrival) (consumed : List IngestRequest) : Prop :=
      Read call request (arrival :: coming) consumed
    refine Routine.Triple.bind (Q := fun _ => On Taken) (.modify _ ?_) fun _ => ?_
    · rintro s' g ⟨rfl, h⟩
      rw [On, hArrivals] at h
      exact h
    · refine Routine.Triple.bind (Q := fun _ => On Taken) ((describeAll_aside _ Taken).except
        fun _ _ _ _ => trivial) fun _ => ?_
      cases hResult : arrival.result with
      | error error => exact .throw _ fun s g h => trivial
      | ok message =>
        refine Routine.Triple.bind (Q := fun _ => On (Read call request)) (.modify _ ?_) fun _ =>
          .pure _ fun s g h => h
        rintro s' g ⟨past, messages, hSplit, hCarry, hConsumed⟩
        refine ⟨past ++ [arrival], messages ++ [message], ?_, ?_, ?_⟩
        · rw [hSplit, List.append_assoc]
          rfl
        · rw [Carry, List.map_append, List.map_append, hCarry]
          simp [hResult]
        · change s'.consumed ++ [message] = _
          rw [hConsumed]
          rfl

theorem nextChunk_reads : Reads call request (nextChunk config call : Ingest P Bool) := by
  apply Reads.bind Aside.get.reads
  intro s
  split
  · exact (Aside.pure _).reads
  · apply read_reads.bind
    intro message
    cases message with
    | none => exact (Aside.throw _).reads
    | some message => exact (takeMessage_aside message).reads

theorem readMedia_reads (capacity : Nat) :
    Reads call request (readMedia config call capacity : Ingest P Bytes) := by
  apply Reads.bind
  · apply Reads.bind Aside.get.reads
    intro s
    split
    · exact nextChunk_reads
    · exact (Aside.pure _).reads
  · intro more
    cases more with
    | false => exact (Aside.pure _).reads
    | true =>
      apply Reads.bind Aside.get.reads
      intro s
      apply Aside.reads
      exact Aside.bind (Aside.modify (fun _ => rfl) fun _ => rfl) fun _ => Aside.pure _

theorem emitProcessed_aside (draft : EventDraft) :
    Aside (emitProcessed call draft : Ingest P Unit) := by
  apply Aside.bind Aside.get
  intro s
  exact (registry_aside _).bind fun event => send_aside event

theorem work_reads {α : Type} (w : Work α) : Reads call request (work call w : Ingest P α) := by
  induction w with
  | done a => exact (Aside.pure a).reads
  | throw error => exact (Aside.throw _).reads
  | emit draft next ih =>
    rw [work]
    exact Routine.Triple.attempt_bind (emitProcessed_aside draft _) (fun _ => ih none)
      fun error => ih (some error)

theorem emitMedia_reads (draft : EventDraft) :
    Reads call request (emitMedia config call factory emitAudio draft) := by
  apply Reads.bind
  · apply Reads.bind Aside.get.reads
    intro s
    split
    · apply (work_reads _).bind
      intro state
      apply Aside.reads
      exact Aside.modify (fun _ => rfl) fun _ => rfl
    · exact (Aside.pure _).reads
  · intro _
    split
    · apply Reads.bind Aside.get.reads
      intro s
      exact ((registry_aside _).bind fun event => send_aside event).reads
    · exact (Aside.pure _).reads

theorem any_triple {α : Type} (m : Ingest P α) :
    Routine.Triple Contract.any (fun _ _ => True) m (fun _ _ _ => True) fun _ _ _ => True := by
  intro s g _
  refine (Program.Meets.trivial (m s)).imp fun result _ _ => ?_
  rcases result with ⟨error | a, s'⟩
  · trivial
  · trivial

/-- After a failed read the demuxer does not return. -/
theorem decodeMedia_throws {inside : Bool} (d : Decoding inside) (hInside : inside = true)
    (error : Exception) :
    Routine.Triple Contract.any (fun _ _ => True)
      (decodeMedia config call factory emitAudio d (some error)) (fun _ _ _ => False)
      fun _ _ _ => True := by
  induction d generalizing error with
  | done => cases hInside
  | throw _ => cases hInside
  | emit _ _ _ => cases hInside
  | enter _ _ => cases hInside
  | leave next _ =>
    rw [decodeMedia]
    exact .throw _ fun s g h => trivial
  | pull cancelled capacity next ih =>
    cases cancelled with
    | true =>
      rw [decodeMedia]
      exact ih .external rfl _
    | false =>
      rw [decodeMedia]
      refine .attempt_bind (any_triple _) (fun bytes => ?_) fun other => ?_
      · cases bytes with
        | nil => exact ih .endOfFile rfl error
        | cons byte data => exact ih (.bytes (byte :: data)) rfl error
      · exact ih .external rfl other

theorem decodeMedia_reads {inside : Bool} (d : Decoding inside) :
    Reads call request (decodeMedia config call factory emitAudio d none) := by
  have hThrows (next : Decoding true) (error : Exception) :
      Routine.Triple Contract.any (fun _ _ => True)
        (decodeMedia config call factory emitAudio next (some error))
        (fun _ => On (Read call request)) fun _ _ _ => True :=
    (decodeMedia_throws next rfl error).post fun _ _ _ h => h.elim
  induction d with
  | done =>
    rw [decodeMedia]
    exact (Aside.pure _).reads
  | throw error =>
    rw [decodeMedia]
    exact (Aside.throw _).reads
  | emit draft next ih =>
    rw [decodeMedia]
    exact (emitMedia_reads draft).bind fun _ => ih
  | enter inner ih =>
    rw [decodeMedia]
    exact ih
  | leave next ih =>
    rw [decodeMedia]
    exact ih
  | pull cancelled capacity next ih =>
    cases cancelled with
    | true =>
      rw [decodeMedia]
      exact (hThrows (next .external) _).pre fun _ _ _ => trivial
    | false =>
      rw [decodeMedia]
      refine Routine.Triple.attempt_bind (readMedia_reads capacity) (fun bytes => ?_)
        fun error => ?_
      · cases bytes with
        | nil => exact ih .endOfFile
        | cons byte data => exact ih (.bytes (byte :: data))
      · exact hThrows (next .external) error

theorem drain_reads (rounds : Nat) :
    Reads call request (drain config call rounds : Ingest P Unit) := by
  induction rounds with
  | zero => exact (Aside.pure _).reads
  | succ rounds ih =>
    apply nextChunk_reads.bind
    intro more
    cases more with
    | true => exact ih
    | false => exact (Aside.pure _).reads

/-- A body that returns has consumed messages only, in the order of the reads. -/
theorem ingest_reads (request accepted : OpenStream) (opened : StreamEvent) :
    Reads call request (ingest config call factory accepted opened) := by
  apply (send_aside opened).reads.bind
  intro _
  apply Reads.bind
  · unfold createProcessing
    split
    · exact (Aside.pure _).reads
    · apply Reads.bind Aside.get.reads
      intro s
      apply (work_reads _).bind
      intro state
      apply Aside.reads
      exact Aside.modify (fun _ => rfl) fun _ => rfl
  intro _
  apply Reads.bind
  · unfold decodeIfAsked
    split
    · exact decodeMedia_reads _
    · exact (Aside.pure _).reads
  intro _
  apply Reads.bind
  · apply Reads.bind Aside.get.reads
    intro s
    exact drain_reads _
  intro _
  apply Reads.bind Aside.get.reads
  intro s
  split
  · exact (Aside.throw _).reads
  · split
    · exact (Aside.throw _).reads
    · apply Reads.bind Aside.get.reads
      intro s
      split
      · exact work_reads _
      · exact (Aside.pure _).reads

end Ingest

/-! ## A pull that is reported complete -/

/-- If the terminal event reports success, the source events are the entity, and the event states
its size and digest. -/
def Relayed (sha256 : Bytes → Bytes) (entity : Bytes) (own : List StreamEvent) : Prop :=
  ∀ event ∈ own, ∀ closed, event.closed? = some closed → closed.statusCode = 0 →
    contents (sourceChunks own) = entity ∧ closed.sourceByteCount = entity.length ∧
      closed.sourceSha256 = sha256 entity

def RelayedAt (sha256 : Bytes → Bytes) (entity : Bytes) : Stake → Prop
  | none => True
  | some (_, own) => Relayed sha256 entity own

theorem totalBytes_eq (chunks : List SourceChunk) :
    totalBytes chunks = (contents chunks).length := by
  rw [totalBytes, contents, List.length_flatMap]

variable {P : Type} {config : ServiceConfig} {call : Call} {entity : Bytes}

theorem finalize_relays {request : OpenStream} {result : Except Exception Unit} {s : Ingress P}
    {stake : Stake} (h : BodyEnds request result s stake)
    (hSuccess : (finalStatus config call s result).code = .ok → s.digest = entity) :
    (finalize config call s result).Meets registryContract stake
      fun _ stake => RelayedAt config.native.sha256 entity stake := by
  obtain ⟨-, home, own, rfl, ⟨hId, hNamed⟩, hOpen, hCount, hBytes, hDigest⟩ := h.owns
  rw [finalize, if_neg (by simpa using hNamed)]
  refine ⟨home, own, rfl, hId, hOpen, fun event hEvent => ?_⟩
  have hRelayed : Relayed config.native.sha256 entity (own ++ [event]) := by
    intro other hOther closed hClosed hOk
    rcases List.mem_append.mp hOther with hEarlier | hLast
    · rw [hOpen other hEarlier] at hClosed
      cases hClosed
    · obtain rfl := List.mem_singleton.mp hLast
      rw [StreamEvent.closed?, hEvent] at hClosed
      obtain rfl := Option.some.inj hClosed
      have hEntity := hSuccess ((StatusCode.value_eq_zero _).mp hOk)
      have hSource : other.source? = none := by rw [StreamEvent.source?, hEvent]
      have hOwn : contents (sourceChunks (own ++ [other])) = entity := by
        rw [sourceChunks, List.filterMap_append, List.filterMap_cons, hSource, List.filterMap_nil,
          List.append_nil]
        exact hDigest.symm.trans hEntity
      refine ⟨hOwn, ?_, congrArg config.native.sha256 hEntity⟩
      have hSize : s.bytes = entity.length := by
        rw [← hEntity]
        exact (hBytes.trans (totalBytes_eq _)).trans (congrArg List.length hDigest.symm)
      exact hSize
  dsimp only
  split <;> exact hRelayed

/-- A pull publishes the entity, or reports that it did not. -/
theorem process_relays {actions : List PullAction} (hActions : ∀ action ∈ actions, action.Pauses)
    (config : ServiceConfig) (request : OpenStream) (call : Call) :
    (process config (pull config entity actions request call)).Meets registryContract none
      fun _ stake => RelayedAt config.native.sha256 entity stake := by
  unfold process
  simp only [pull]
  cases accept config request with
  | error error => trivial
  | ok accepted =>
    refine ⟨rfl, fun error => trivial, fun opened hOpened hId => ?_⟩
    apply Program.Meets.bind
    have hFollows := clean_follows request
    refine Program.Meets.imp (Program.Meets.and_any
      (Ingest.ingest_triple (Ingest.admits_of_follows hFollows)
        (fun _ => Ingest.decodeMedia_triple hFollows _) accepted opened _ _
        (start_owns hOpened hId))
      (Ingest.ingest_reads request accepted opened _ () ?_)) fun result stake hBoth => ?_
    · exact ⟨[], [], rfl, rfl, rfl⟩
    obtain ⟨hResult, hRead⟩ := hBoth
    have hEnds : BodyEnds request result.1 result.2 stake := by
      match result, hResult with
      | (.ok _, s), hResult => exact hResult
      | (.error error, s), hResult => exact hResult
    apply finalize_relays hEnds
    intro hCode
    obtain ⟨result, s⟩ := result
    obtain ⟨rfl, -⟩ := finalStatus_ok hCode (by
      rintro error rfl
      exact hEnds.1)
    obtain ⟨⟨⟨chunks, -, hCounts, hConsumed⟩, hSettled⟩, -⟩ := hEnds
    obtain ⟨past, messages, hSplit, hCarry, hRead⟩ := hRead
    rw [hSettled.1, if_pos rfl] at hConsumed
    have hMessages : messages = chunks.map .chunk ++ [.finish s.finish] := by
      have hBoth := hRead.symm.trans hConsumed
      rw [List.cons_append] at hBoth
      exact (List.cons.inj hBoth).2
    rw [hMessages] at hCarry
    have hEntity := pullArrivals_entity hActions (Queue.start entity)
      ⟨s.arrivals, hSplit.symm⟩ hCarry
    rw [List.nil_append] at hEntity
    exact hCounts.2.2.trans hEntity

/-- In every interleaving of the calls of a service, a pull that has returned either published no
success, or its source events are the entity of the HTTP response and its terminal event states
the entity's size and digest; provided that no pause of the transfer fails. -/
theorem pull_relays_entity (deployment : Deployment) (turns : List (Turn Moment Listening))
    {index : Nat} {entity : Bytes} {actions : List PullAction} {request : OpenStream} {call : Call}
    (hCall : deployment.calls[index]? = some (pull deployment.config entity actions request call))
    (hActions : ∀ action ∈ actions, action.Pauses) {result : IngestResult}
    (hDone : (deployment.run turns).result? index = some result) :
    Relayed deployment.config.native.sha256 entity
      (eventsBy index (deployment.run turns).state.published) := by
  have hPost : ∀ other call', deployment.calls[other]? = some call' →
      (process deployment.config call').Meets registryContract none fun _ stake =>
        other = index → RelayedAt deployment.config.native.sha256 entity stake := by
    intro other call' hCall'
    by_cases hSame : other = index
    · subst hSame
      obtain rfl := Option.some.inj (hCall.symm.trans hCall')
      exact (process_relays hActions _ _ _).imp fun _ _ h _ => h
    · exact (process_meets deployment.config call').imp fun _ _ _ h => absurd h hSame
  obtain ⟨stakes, hLedger, hThreads⟩ := deployment.keeps hPost turns
  have hRelayed := hThreads index _ (Pool.result?_eq_some.mp hDone) rfl
  cases hStake : stakes index with
  | none =>
    rw [hLedger.idle index hStake]
    intro event hEvent
    cases hEvent
  | some stake =>
    obtain ⟨home, own⟩ := stake
    rw [hStake] at hRelayed
    rw [(hLedger.incarnation hStake).1]
    exact hRelayed

/-- A response of two bytes, read in one block. -/
def shortResponse : List PullAction :=
  [.read [performing [.status 200, .body 2] [], performing [] []]
      (some ⟨ascii "http://talk:80", 200⟩),
    .read [performing [] [0], performing [] []] none]

def pulledTalk : Deployment :=
  let config : ServiceConfig := rivalTalks.config
  { rivalTalks with
    calls := [pull config [1, 2] shortResponse
      ⟨talkId, some (.http ⟨ascii "http://talk/", []⟩), [], none⟩ talkCall] }

def pulledTurns : List (Turn Moment Listening) :=
  [0, 0, 0, 0].map fun index => .thread index ⟨⟨0, 0⟩, 0, fun _ => 1, fun _ => 2⟩

theorem pull_relays_entity_talk :
    ((pulledTalk.run pulledTurns).result? 0).map (fun result => result.status.code) = some .ok ∧
      ∀ result, (pulledTalk.run pulledTurns).result? 0 = some result →
        Relayed pulledTalk.config.native.sha256 [1, 2]
          (eventsBy 0 (pulledTalk.run pulledTurns).state.published) := by
  have hPauses : ∀ action ∈ shortResponse, action.Pauses := by
    intro action hAction
    rcases List.mem_pair.mp hAction with rfl | rfl
    · intro turn hTurn
      rcases List.mem_pair.mp hTurn with rfl | rfl
      · rfl
      · rfl
    · intro turn hTurn
      rcases List.mem_pair.mp hTurn with rfl | rfl
      · rfl
      · rfl
  constructor
  · decide +kernel
  · intro result hDone
    exact pull_relays_entity pulledTalk pulledTurns rfl hPauses hDone

end GrpcAsr.Media
