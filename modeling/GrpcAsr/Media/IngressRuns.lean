import GrpcAsr.Media.IngressAccounting

/-!
# Concurrent ingress calls

Calls of `process` take turns on one registry, and listening calls move it from outside.
An open stream is never reclaimed, so a call finds its own stream whenever it publishes;
only the call that opened a stream publishes to it, so the incarnation's events are the
call's own, in every interleaving.
-/

namespace GrpcAsr.Media

set_option autoImplicit false

open Interaction Emitting

variable {native : Native} {system : System}

/-- The operations performed so far and the published events, each with the number of the
call that published it. -/
structure Traffic where
  operations : List Operation
  published : List (Nat × StreamEvent)

/-- What a listening call may do. -/
inductive Listening
  | subscribe (request : SubscribeRequest) (entropy : Entropy)
  | next (handle : Nat)
  | cancel (handle : Nat)
  | release (handle : Nat)

def Listening.operation : Listening → Operation
  | .subscribe request entropy => .subscribe request entropy
  | .next handle => .next handle
  | .cancel handle => .cancel handle
  | .release handle => .release handle

namespace Server

variable (server : Server)

def outcome (operations : List Operation) (operation : Operation) :
    Outcome System Emission Failure :=
  (server.state operations).step server.native operation

def record (traffic : Traffic) (index : Nat) (operation : Operation) : Traffic where
  operations := traffic.operations ++ [operation]
  published := traffic.published ++
    (publishedEvents (server.outcome traffic.operations operation).emitted).map (index, ·)

/-- The registry as the calls use it. -/
def machine : Machine Traffic RegistryRequest RegistryRequest.Answer Moment where
  serve traffic index moment request :=
    some (replyOf (server.outcome traffic.operations (request.operation moment)),
      server.record traffic index (request.operation moment))

end Server

def Traffic.listen (traffic : Traffic) (move : Listening) : Traffic :=
  { traffic with operations := traffic.operations ++ [move.operation] }

/-- The registry of a service, and the calls that were made of it. -/
structure Deployment where
  config : ServiceConfig
  epoch : Bytes
  producer : Producer
  calls : List Call

namespace Deployment

def server (deployment : Deployment) : Server :=
  ⟨deployment.config.native, deployment.config.limits, deployment.epoch, deployment.producer⟩

def start (deployment : Deployment) : Pool Traffic RegistryRequest RegistryRequest.Answer IngestResult :=
  ⟨⟨[], []⟩, deployment.calls.map (process deployment.config)⟩

/-- The calls and the published events after the given turns. -/
def run (deployment : Deployment) (turns : List (Turn Moment Listening)) :
    Pool Traffic RegistryRequest RegistryRequest.Answer IngestResult :=
  deployment.start.run deployment.server.machine Traffic.listen turns

end Deployment

def eventsBy (index : Nat) (published : List (Nat × StreamEvent)) : List StreamEvent :=
  (published.filter fun entry => entry.1 = index).map Prod.snd

@[simp] theorem eventsBy_snoc (index caller : Nat) (published : List (Nat × StreamEvent))
    (event : StreamEvent) :
    eventsBy index (published ++ [(caller, event)]) =
      eventsBy index published ++ if caller = index then [event] else [] := by
  by_cases h : caller = index <;> simp [eventsBy, h]

/-- The call has opened an incarnation, everything published for it is the call's own, and
until its terminal event the stream is current and registered. -/
def Holding (system : System) (published : List (Nat × StreamEvent)) (index : Nat)
    (home : Bytes × Bytes) (own : List StreamEvent) : Prop :=
  ∃ before opened after, published = before ++ (index, opened) :: after ∧
    opened.opened?.isSome = true ∧ opened.cursor.home = home ∧
    own = opened :: untilReopened home.1 (after.map Prod.snd) ∧ eventsBy index published = own ∧
    (Unclosed own → Current home.1 (after.map Prod.snd) ∧
      (system.registry.streams[home.1]?).isSome = true)

/-- What the registry's traffic says of every call. -/
structure Ledger (server : Server) (traffic : Traffic) (stakes : Nat → Stake) : Prop where
  log : traffic.published.map Prod.snd = server.log traffic.operations
  idle : ∀ index, stakes index = none → eventsBy index traffic.published = []
  holding : ∀ index home own, stakes index = some (home, own) →
    Holding (server.state traffic.operations) traffic.published index home own
  apart : ∀ index other home home' own own', stakes index = some (home, own) →
    stakes other = some (home', own') → index ≠ other → Unclosed own → Unclosed own' →
    home.1 ≠ home'.1

variable {server : Server} {traffic : Traffic} {stakes : Nat → Stake}

/-- While a stream is current its registered state says whether it is closed. -/
theorem Server.current_unclosed (server : Server) {operations : List Operation}
    {published before after : List (Nat × StreamEvent)} {index : Nat} {opened : StreamEvent}
    {stream : Stream} (hLog : published.map Prod.snd = server.log operations)
    (hSplit : published = before ++ (index, opened) :: after)
    (hOpened : opened.opened?.isSome = true)
    (hCurrent : Current opened.cursor.streamId (after.map Prod.snd))
    (hStream : (server.state operations).registry.streams[opened.cursor.streamId]? = some stream) :
    stream.closed = false ↔
      Unclosed (opened :: untilReopened opened.cursor.streamId (after.map Prod.snd)) := by
  rw [server.closed_iff operations _ stream hStream, ← hLog, hSplit, List.map_append, List.map_cons,
    incarnationLog_current hOpened rfl hCurrent]

theorem Holding.registered {operations : List Operation} {published : List (Nat × StreamEvent)}
    {index : Nat} {home : Bytes × Bytes} {own : List StreamEvent}
    (h : Holding (server.state operations) published index home own)
    (hLog : published.map Prod.snd = server.log operations) (hOpen : Unclosed own) :
    ∃ stream, (server.state operations).registry.streams[home.1]? = some stream ∧
      stream.closed = false := by
  obtain ⟨before, opened, after, hSplit, hOpened, rfl, rfl, -, hLive⟩ := h
  obtain ⟨hCurrent, hRegistered⟩ := hLive hOpen
  obtain ⟨stream, hStream⟩ := Option.isSome_iff_exists.mp hRegistered
  exact ⟨stream, hStream,
    (server.current_unclosed hLog hSplit hOpened hCurrent hStream).mpr hOpen⟩

/-- A step of someone else on another stream leaves an incarnation alone. -/
theorem Holding.bystander {operations : List Operation} {published : List (Nat × StreamEvent)}
    {index : Nat} {home : Bytes × Bytes} {own : List StreamEvent} (caller : Nat)
    (h : Holding (server.state operations) published index home own)
    (hLog : published.map Prod.snd = server.log operations) (operation : Operation)
    (hForeign : ∀ event, publishedEvents (server.outcome operations operation).emitted = [event] →
      caller ≠ index ∧ (Unclosed own → event.cursor.streamId ≠ home.1)) :
    Holding (server.state (operations ++ [operation]))
      (published ++ (publishedEvents (server.outcome operations operation).emitted).map (caller, ·))
      index home own := by
  have hRegistered : Unclosed own →
      ((server.state (operations ++ [operation])).registry.streams[home.1]?).isSome = true := by
    intro hOpen
    obtain ⟨stream, hStream, hNotClosed⟩ := h.registered hLog hOpen
    rw [server.state_snoc]
    exact step_registered operation hStream hNotClosed
  obtain ⟨before, opened, after, hSplit, hOpened, rfl, rfl, hOwn, hLive⟩ := h
  have hPublishes := step_publishes server.native (server.state operations) operation
  rw [Server.outcome] at hForeign ⊢
  generalize publishedEvents ((server.state operations).step server.native operation).emitted =
    events at hPublishes hForeign ⊢
  rcases events with - | ⟨event, rest⟩
  · rw [List.map_nil, List.append_nil]
    exact ⟨before, opened, after, hSplit, hOpened, rfl, rfl, hOwn,
      fun hOpen => ⟨(hLive hOpen).1, hRegistered hOpen⟩⟩
  · obtain rfl : rest = [] := by cases hPublishes <;> rfl
    obtain ⟨hCaller, hElsewhere⟩ := hForeign event rfl
    have hKept : untilReopened opened.cursor.home.1 (after.map Prod.snd ++ [event]) =
        untilReopened opened.cursor.home.1 (after.map Prod.snd) := by
      refine untilReopened_snoc fun hCurrent hSame => ?_
      cases hPublishes with
      | opening _ hEvent => exact hEvent
      | continuing _ _ old hOld hNotClosed =>
        rw [hSame] at hOld
        exact absurd hSame (hElsewhere
          ((server.current_unclosed hLog hSplit hOpened hCurrent hOld).mp hNotClosed))
    refine ⟨before, opened, after ++ [(caller, event)], ?_, hOpened, rfl, ?_, ?_, fun hOpen => ?_⟩
    · rw [hSplit, List.append_assoc, List.cons_append]
      rfl
    · rw [List.map_append, List.map_singleton, hKept]
    · rw [List.map_singleton, eventsBy_snoc, if_neg hCaller, List.append_nil, hOwn]
    · refine ⟨?_, hRegistered hOpen⟩
      rw [List.map_append, List.map_singleton, current_snoc]
      exact ⟨(hLive hOpen).1, fun hSame => absurd hSame (hElsewhere hOpen)⟩

/-- The call's own continuation extends its incarnation. -/
theorem Holding.continue {operations : List Operation} {published : List (Nat × StreamEvent)}
    {index : Nat} {home : Bytes × Bytes} {own : List StreamEvent} {event : StreamEvent}
    (h : Holding (server.state operations) published index home own) (hOpen : Unclosed own)
    {operation : Operation}
    (hEvents : publishedEvents (server.outcome operations operation).emitted = [event])
    (hId : event.cursor.streamId = home.1) (hEvent : event.opened? = none) :
    Holding (server.state (operations ++ [operation])) (published ++ [(index, event)]) index home
      (own ++ [event]) := by
  obtain ⟨before, opened, after, hSplit, hOpened, rfl, rfl, hOwn, hLive⟩ := h
  have hCurrent := (hLive hOpen).1
  refine ⟨before, opened, after ++ [(index, event)], ?_, hOpened, rfl, ?_, ?_, fun _ => ⟨?_, ?_⟩⟩
  · rw [hSplit, List.append_assoc, List.cons_append]
  · rw [List.map_append, List.map_singleton, untilReopened_continued hCurrent hId hEvent,
      List.cons_append]
  · rw [eventsBy_snoc, if_pos rfl, hOwn]
  · rw [List.map_append, List.map_singleton, current_snoc]
    exact ⟨hCurrent, fun _ => hEvent⟩
  · rw [server.state_snoc, ← hId]
    exact step_publishes_registered hEvents

namespace Ledger

theorem record_log (h : Ledger server traffic stakes) (index : Nat) (operation : Operation) :
    (server.record traffic index operation).published.map Prod.snd =
      server.log (server.record traffic index operation).operations := by
  simp [Server.record, server.log_snoc, ← h.log, Server.outcome, Function.comp_def]

theorem idle_record {index other : Nat} {operation : Operation}
    (hIdle : eventsBy other traffic.published = []) (hOther : index ≠ other) :
    eventsBy other (server.record traffic index operation).published = [] := by
  rw [eventsBy, Server.record, List.filter_append, List.map_append, ← eventsBy, hIdle]
  simp [List.filter_map, Function.comp_def, hOther]

/-- Every other call keeps its incarnation when a call acts on a stream that no other call
holds open. -/
theorem others (h : Ledger server traffic stakes) {index : Nat} {operation : Operation}
    (stake : Stake)
    (hForeign : ∀ event, publishedEvents
        (server.outcome traffic.operations operation).emitted = [event] →
      ∀ other home own, other ≠ index → stakes other = some (home, own) → Unclosed own →
        event.cursor.streamId ≠ home.1)
    (hIdle : stake = none →
      eventsBy index (server.record traffic index operation).published = [])
    (hHolding : ∀ home own, stake = some (home, own) →
      Holding (server.state (server.record traffic index operation).operations)
        (server.record traffic index operation).published index home own)
    (hApart : ∀ other home home' own own', other ≠ index → stake = some (home, own) →
      stakes other = some (home', own') → Unclosed own → Unclosed own' → home.1 ≠ home'.1) :
    Ledger server (server.record traffic index operation) (Function.update stakes index stake) where
  log := h.record_log index operation
  idle other hNone := by
    by_cases hSame : other = index
    · subst hSame
      exact hIdle (by rwa [Function.update_self] at hNone)
    · rw [Function.update_of_ne hSame] at hNone
      exact idle_record (h.idle other hNone) (Ne.symm hSame)
  holding other home own hStake := by
    by_cases hSame : other = index
    · subst hSame
      exact hHolding home own (by rwa [Function.update_self] at hStake)
    · rw [Function.update_of_ne hSame] at hStake
      exact (h.holding other home own hStake).bystander index h.log operation fun event hEvents =>
        ⟨Ne.symm hSame, hForeign event hEvents other home own hSame hStake⟩
  apart first second home home' own own' hFirst hSecond hNe hOpen hOpen' := by
    by_cases hSame : first = index
    · subst hSame
      rw [Function.update_self] at hFirst
      rw [Function.update_of_ne (Ne.symm hNe)] at hSecond
      exact hApart second home home' own own' (Ne.symm hNe) hFirst hSecond hOpen hOpen'
    · rw [Function.update_of_ne hSame] at hFirst
      by_cases hSame' : second = index
      · subst hSame'
        rw [Function.update_self] at hSecond
        exact (hApart first home' home own' own hSame hSecond hFirst hOpen' hOpen).symm
      · rw [Function.update_of_ne hSame'] at hSecond
        exact h.apart first second home home' own own' hFirst hSecond hNe hOpen hOpen'

/-- A step that publishes nothing. -/
theorem quiet (h : Ledger server traffic stakes) {operation : Operation}
    (hEvents : publishedEvents (server.outcome traffic.operations operation).emitted = []) :
    Ledger server ⟨traffic.operations ++ [operation], traffic.published⟩ stakes where
  log := by rw [server.log_snoc, ← Server.outcome, hEvents, List.append_nil, h.log]
  idle := h.idle
  holding index home own hStake := by
    have hKept := (h.holding index home own hStake).bystander index h.log operation
      fun event hEvent => by
        rw [hEvents] at hEvent
        cases hEvent
    rw [hEvents, List.map_nil, List.append_nil] at hKept
    exact hKept
  apart := h.apart

theorem refused (h : Ledger server traffic stakes) (index : Nat) {operation : Operation}
    (hEvents : publishedEvents (server.outcome traffic.operations operation).emitted = []) :
    Ledger server (server.record traffic index operation) stakes := by
  have hQuiet := h.quiet hEvents
  rw [Server.record, hEvents, List.map_nil, List.append_nil]
  exact hQuiet

theorem opened (h : Ledger server traffic stakes) {index : Nat} (hStake : stakes index = none)
    {operation : Operation} {event : StreamEvent}
    (hEvents : publishedEvents (server.outcome traffic.operations operation).emitted = [event])
    (hEvent : event.opened?.isSome = true)
    (hNew : (server.state traffic.operations).registry.streams[event.cursor.streamId]? = none) :
    Ledger server (server.record traffic index operation)
      (Function.update stakes index (some (event.cursor.home, [event]))) := by
  have hFree : ∀ other home own, stakes other = some (home, own) → Unclosed own →
      event.cursor.streamId ≠ home.1 := by
    intro other home own hOther hOpen hSame
    obtain ⟨stream, hStream, -⟩ := (h.holding other home own hOther).registered h.log hOpen
    rw [← hSame, hNew] at hStream
    cases hStream
  refine h.others _ ?_ ?_ ?_ ?_
  · rintro _ hSame other home own - hOther hOpen
    obtain rfl := List.singleton_inj.mp (hEvents.symm.trans hSame)
    exact hFree other home own hOther hOpen
  · rintro ⟨⟩
  · rintro home own ⟨⟩
    rw [Server.record, hEvents]
    refine ⟨traffic.published, event, [], rfl, hEvent, rfl, rfl, ?_, fun _ => ⟨?_, ?_⟩⟩
    · rw [List.map_singleton, eventsBy_snoc, if_pos rfl, h.idle index hStake]
      rfl
    · exact fun other hOther => absurd hOther List.not_mem_nil
    · rw [server.state_snoc]
      exact step_publishes_registered hEvents
  · rintro other home home' own own' - ⟨⟩ hOther - hOpen
    exact hFree other home' own' hOther hOpen

theorem continued (h : Ledger server traffic stakes) {index : Nat} {home : Bytes × Bytes}
    {own : List StreamEvent} (hStake : stakes index = some (home, own)) (hOpen : Unclosed own)
    {operation : Operation} {event : StreamEvent}
    (hEvents : publishedEvents (server.outcome traffic.operations operation).emitted = [event])
    (hId : event.cursor.streamId = home.1) (hEvent : event.opened? = none) :
    Ledger server (server.record traffic index operation)
      (Function.update stakes index (some (home, own ++ [event]))) := by
  refine h.others _ ?_ ?_ ?_ ?_
  · rintro _ hSame other home' own' hNe hOther hOpen'
    obtain rfl := List.singleton_inj.mp (hEvents.symm.trans hSame)
    rw [hId]
    exact h.apart index other home home' own own' hStake hOther (Ne.symm hNe) hOpen hOpen'
  · rintro ⟨⟩
  · rintro home own ⟨⟩
    rw [Server.record, hEvents]
    exact (h.holding index _ _ hStake).continue hOpen hEvents hId hEvent
  · rintro other home home' own own' hNe ⟨⟩ hOther - hOpen'
    exact h.apart index other _ home' _ own' hStake hOther (Ne.symm hNe) hOpen hOpen'

end Ledger

/-- How the registry answers a call: with a failure and no event, or with the one event it
published. -/
inductive Answers (outcome : Outcome System Emission Failure) (E : Failure → Prop)
    (Q : StreamEvent → Prop) : Prop
  | failure (error : Failure) (hError : E error) (hReply : replyOf outcome = .error error)
      (hEvents : publishedEvents outcome.emitted = [])
  | event (event : StreamEvent) (hEvent : Q event) (hReply : replyOf outcome = .ok event)
      (hEvents : publishedEvents outcome.emitted = [event])

theorem refuse_answers {E : Failure → Prop} {Q : StreamEvent → Prop} {error : Failure}
    (h : E error) : Answers (system.refuse error) E Q := .failure error h rfl rfl

theorem publish_answers {E : Failure → Prop} {Q : StreamEvent → Prop} {id : Bytes}
    {stream : Stream} {now : Timestamp} {draft : EventDraft}
    (h : Q (stream.stamp system.registry.epoch id now draft)) :
    Answers (system.publish id stream now draft) E Q := .event _ h rfl rfl

theorem openStream_answers (native : Native) (system : System) (request : OpenStream)
    (speechEnabled httpEnabled : Bool) (idEntropy incarnationEntropy : Entropy) (now : Timestamp) :
    Answers (system.step native
        (.openStream request speechEnabled httpEnabled idEntropy incarnationEntropy now))
      (fun _ => True) fun event => event.opened?.isSome = true ∧ event.cursor.streamId ≠ [] ∧
        system.registry.streams[event.cursor.streamId]? = none := by
  have hStep := step_change native system
    (.openStream request speechEnabled httpEnabled idEntropy incarnationEntropy now)
  generalize system.step native
    (.openStream request speechEnabled httpEnabled idEntropy incarnationEntropy now) = outcome
    at hStep ⊢
  cases hStep with
  | opened id hId hNew hValid =>
    refine publish_answers ⟨rfl, ?_, hNew⟩
    rintro rfl
    cases hValid
  | unopened error => exact refuse_answers trivial
  | refused _ error => exact refuse_answers trivial
  | continued _ _ _ _ hNext => cases hNext

theorem source_answers {id : Bytes} {stream : Stream} (chunk : SourceChunk) (now : Timestamp)
    (hStream : system.registry.streams[id]? = some stream) (hOpen : stream.closed = false) :
    Answers (system.step native (.source id chunk now)) (fun _ => False) fun event =>
      event.payload = some (.source chunk) ∧ event.cursor.streamId = id := by
  rw [System.step, System.source, openStreamAt_open _ hStream hOpen]
  exact publish_answers ⟨rfl, rfl⟩

theorem close_answers {id : Bytes} {stream : Stream} (closed : StreamClosed) (now : Timestamp)
    (steadyNow : Int) (hStream : system.registry.streams[id]? = some stream)
    (hOpen : stream.closed = false) :
    Answers (system.step native (.close id closed now steadyNow)) (fun _ => False) fun event =>
      event.payload = some (.closed closed) ∧ event.cursor.streamId = id := by
  rw [System.step, System.close, openStreamAt_open _ hStream hOpen]
  exact publish_answers ⟨rfl, rfl⟩

theorem derive_reported (retention : Nat) (stream : Stream) (draft : EventDraft)
    (libraryVersion : Bytes) : Reported (stream.derive retention draft libraryVersion) := by
  refine .bind ?_ fun draft => .bind ?_ fun _ => .bind ?_ fun _ => .ok _
  · unfold EventDraft.attributeTo
    split
    · exact .ok _
    · exact .bind (.require StatusCode.noConfusion) fun _ => .ok _
    · exact .ok _
  · unfold EventDraft.checkTranscript
    split
    · exact .ok _
    · exact .bind (.require StatusCode.noConfusion) fun _ => .require StatusCode.noConfusion
  · unfold StreamSnapshot.addProducer
    split
    · exact .ok _
    · exact .bind (.require StatusCode.noConfusion) fun _ => .ok _

theorem openStreamAt_reported (system : System) (id : Bytes) (message : String) :
    Reported (system.openStreamAt id message) := by
  unfold System.openStreamAt
  split
  · exact .error StatusCode.noConfusion
  · split
    · exact .error StatusCode.noConfusion
    · exact .ok _

theorem derived_answers (system : System) (id : Bytes) (draft : EventDraft) (libraryVersion : Bytes)
    (now : Timestamp) :
    Answers (system.step native (.derived id draft libraryVersion now))
      (fun error => error.code ≠ .ok) fun event =>
        event.payload.any Payload.isDerived = true ∧ event.cursor.streamId = id := by
  rw [System.step, System.derived]
  split
  · rename_i error hError
    refine refuse_answers (Reported.bind (.require StatusCode.noConfusion) (fun _ =>
      .bind (.require StatusCode.noConfusion) fun _ => .bind (openStreamAt_reported system id _)
        fun stream => derive_reported _ stream _ _) error hError)
  · rename_i draft' stream hChecked
    obtain ⟨_, hPayload, hChecked⟩ := bind_eq_ok hChecked
    obtain ⟨-, -, hChecked⟩ := bind_eq_ok hChecked
    obtain ⟨old, -, hDerive⟩ := bind_eq_ok hChecked
    obtain ⟨snapshot, hAttributed, -⟩ := derive_eq_ok hDerive
    exact publish_answers ⟨(attributeTo_payload hAttributed).trans (require_eq_ok.mp hPayload), rfl⟩

theorem listening_quiet (native : Native) (system : System) (move : Listening) :
    publishedEvents (system.step native move.operation).emitted = [] := by
  cases move with
  | subscribe request entropy =>
    simp only [Listening.operation, System.step, System.subscribe]
    split
    · rfl
    · split <;> rfl
  | next handle =>
    simp only [Listening.operation, System.step, System.receive]
    split
    · exact publishedEvents_delivered handle _
    · rfl
  | cancel handle => rfl
  | release handle => rfl

/-- A request of a call that holds its stream open, for any way the registry answers it. -/
theorem Ledger.answer (h : Ledger server traffic stakes) {index : Nat} {home : Bytes × Bytes}
    {own : List StreamEvent} (hStake : stakes index = some (home, own)) (hOpen : Unclosed own)
    {operation : Operation} {E : Failure → Prop} {R : StreamEvent → Prop}
    {Q : Reply → Stake → Prop}
    (hAnswers : Answers (server.outcome traffic.operations operation) E R)
    (hEvent : ∀ event, R event → event.cursor.streamId = home.1 ∧ event.opened? = none)
    (hError : ∀ error, E error → Q (.error error) (some (home, own)))
    (hOk : ∀ event, R event → Q (.ok event) (some (home, own ++ [event]))) :
    ∃ stake, Q (replyOf (server.outcome traffic.operations operation)) stake ∧
      Ledger server (server.record traffic index operation)
        (Function.update stakes index stake) := by
  cases hAnswers with
  | failure error hFailure hReply hEvents =>
    refine ⟨some (home, own), hReply ▸ hError error hFailure, ?_⟩
    rw [← hStake, Function.update_eq_self]
    exact h.refused index hEvents
  | event event hPublished hReply hEvents =>
    obtain ⟨hId, hNotOpening⟩ := hEvent event hPublished
    exact ⟨some (home, own ++ [event]), hReply ▸ hOk event hPublished,
      h.continued hStake hOpen hEvents hId hNotOpening⟩

/-- The registry honours the contract of every call, whatever the others do. -/
theorem machine_sound (server : Server) :
    Pool.Sound server.machine Traffic.listen registryContract (Ledger server) where
  serve := by
    intro traffic traffic' stakes index request reply Q moment hLedger hHolds hServed
    obtain ⟨rfl, rfl⟩ := Prod.mk.inj (Option.some.inj hServed)
    cases request with
    | openStream request speechEnabled httpEnabled =>
      obtain ⟨hNone, hError, hOk⟩ := hHolds
      cases openStream_answers server.native (server.state traffic.operations) request speechEnabled
        httpEnabled moment.idEntropy moment.incarnationEntropy moment.now with
      | failure error _ hReply hEvents =>
        have hQ := hError error
        rw [← hReply] at hQ
        refine ⟨none, hQ, ?_⟩
        rw [← hNone, Function.update_eq_self]
        exact hLedger.refused index hEvents
      | event event hEvent hReply hEvents =>
        have hQ := hOk event hEvent.1 hEvent.2.1
        rw [← hReply] at hQ
        exact ⟨_, hQ, hLedger.opened hNone hEvents hEvent.1 hEvent.2.2⟩
    | source id chunk =>
      obtain ⟨home, own, hStake, rfl, hOpen, hOk⟩ := hHolds
      obtain ⟨stream, hStream, hNotClosed⟩ :=
        (hLedger.holding index home own hStake).registered hLedger.log hOpen
      exact hLedger.answer hStake hOpen (source_answers chunk moment.now hStream hNotClosed)
        (fun event hEvent => ⟨hEvent.2, by rw [StreamEvent.opened?, hEvent.1]⟩)
        (fun _ hFalse => hFalse.elim) fun event hEvent => hOk event hEvent.1
    | derived id draft libraryVersion =>
      obtain ⟨home, own, hStake, rfl, hOpen, hError, hOk⟩ := hHolds
      rw [hStake] at hError
      exact hLedger.answer hStake hOpen
        (derived_answers _ home.1 draft libraryVersion moment.now)
        (fun event hEvent => ⟨hEvent.2, (derived_inside hEvent.1).1⟩) hError
        fun event hEvent => hOk event hEvent.1
    | close id closed =>
      obtain ⟨home, own, hStake, rfl, hOpen, hOk⟩ := hHolds
      obtain ⟨stream, hStream, hNotClosed⟩ :=
        (hLedger.holding index home own hStake).registered hLedger.log hOpen
      exact hLedger.answer hStake hOpen
        (close_answers closed moment.now moment.steadyNow hStream hNotClosed)
        (fun event hEvent => ⟨hEvent.2, by rw [StreamEvent.opened?, hEvent.1]⟩)
        (fun _ hFalse => hFalse.elim) fun event hEvent => hOk event hEvent.1
  move := by
    intro traffic stakes move hLedger
    exact hLedger.quiet (listening_quiet server.native _ move)

/-- What a call meets alone, under the contract, it meets in every interleaving. -/
theorem Deployment.keeps (deployment : Deployment) {post : Nat → IngestResult → Stake → Prop}
    (hPost : ∀ index call, deployment.calls[index]? = some call →
      (process deployment.config call).Meets registryContract none (post index))
    (turns : List (Turn Moment Listening)) :
    (deployment.run turns).Keeps registryContract (Ledger deployment.server) post := by
  refine Pool.Keeps.run (machine_sound deployment.server) ⟨fun _ => none, ?_, ?_⟩ turns
  · exact ⟨rfl, fun _ _ => rfl, fun _ _ _ hStake => (nomatch hStake),
      fun _ _ _ _ _ _ hStake => (nomatch hStake)⟩
  · intro index thread hThread
    rw [Deployment.start, List.getElem?_map] at hThread
    obtain ⟨call, hCall, rfl⟩ := Option.map_eq_some_iff.mp hThread
    exact hPost index call hCall

/-- A call that gets enough turns returns. -/
theorem Deployment.returns (deployment : Deployment) (turns : List (Turn Moment Listening))
    {index : Nat} (hIndex : index < deployment.calls.length) (moments : Nat → Moment) :
    ∃ n result,
      (deployment.run (turns ++ Pool.turnsOf index moments n)).result? index = some result := by
  have hLength : index < (deployment.run turns).threads.length := by
    rw [Deployment.run, Pool.length_run, Deployment.start, List.length_map]
    exact hIndex
  obtain ⟨n, result, hDone⟩ := Pool.finishes (M := deployment.server.machine)
    (fun _ _ _ _ => rfl) Traffic.listen (deployment.run turns) (List.getElem?_eq_getElem hLength)
    moments
  refine ⟨n, result, ?_⟩
  rw [Deployment.run, Pool.run_append]
  exact hDone

/-- The events are those of the incarnation that the call opened: its opening event and
everything published for the stream before it is opened again. -/
def IsIncarnation (index : Nat) (published : List (Nat × StreamEvent)) (own : List StreamEvent) :
    Prop :=
  ∃ before opened after, published = before ++ (index, opened) :: after ∧
    opened.opened?.isSome = true ∧
    own = opened :: untilReopened opened.cursor.streamId (after.map Prod.snd)

theorem Ledger.incarnation (h : Ledger server traffic stakes) {index : Nat} {home : Bytes × Bytes}
    {own : List StreamEvent} (hStake : stakes index = some (home, own)) :
    eventsBy index traffic.published = own ∧ IsIncarnation index traffic.published own := by
  obtain ⟨before, opened, after, hSplit, hOpened, rfl, hOwn, hEvents, -⟩ :=
    h.holding index home own hStake
  exact ⟨hEvents, before, opened, after, hSplit, hOpened, hOwn⟩

/-- What the log says of a call that has returned: it published nothing, or exactly one
incarnation, which it terminated. -/
def Accounted (sha256 : Bytes → Bytes) (published : List (Nat × StreamEvent)) (index : Nat)
    (result : IngestResult) : Prop :=
  eventsBy index published = [] ∨
    IsIncarnation index published (eventsBy index published) ∧
      Terminated sha256 result.consumed (eventsBy index published)

/-- Every call returns once it has had enough turns, and after any interleaving the log
accounts for each call that has returned. -/
theorem ingress_accounted (deployment : Deployment) (turns : List (Turn Moment Listening))
    (index : Nat) (hIndex : index < deployment.calls.length) :
    ((deployment.run turns).state.published.map Prod.snd =
        deployment.server.log (deployment.run turns).state.operations) ∧
    (∀ moments, ∃ n result,
      (deployment.run (turns ++ Pool.turnsOf index moments n)).result? index = some result) ∧
    ∀ result, (deployment.run turns).result? index = some result →
      Accounted deployment.config.native.sha256 (deployment.run turns).state.published index
        result := by
  obtain ⟨stakes, hLedger, hThreads⟩ :=
    deployment.keeps (fun _ call _ => process_meets deployment.config call) turns
  refine ⟨hLedger.log, deployment.returns turns hIndex, fun result hDone => ?_⟩
  have hDischarged := hThreads index _ (Pool.result?_eq_some.mp hDone)
  cases hStake : stakes index with
  | none => exact .inl (hLedger.idle index hStake)
  | some stake =>
    obtain ⟨home, own⟩ := stake
    obtain ⟨hEvents, hIncarnation⟩ := hLedger.incarnation hStake
    rw [hStake] at hDischarged
    rw [← hEvents] at hIncarnation hDischarged
    exact .inr ⟨hIncarnation, hDischarged⟩

/-- A call that sends one chunk and its trailer. -/
def talkCall : Call where
  http := false
  first := some (.open ⟨talkId, some (.direct ⟨ascii "talk", []⟩), [], none⟩)
  arrivals := [⟨none, .ok (.chunk ⟨1, 0, [7], []⟩)⟩, ⟨none, .ok (.finish ⟨1, 1, []⟩)⟩]
  writeOk _ := true
  decoding := .done
  cancelled := false

/-- Two calls that want the same stream. -/
def rivalTalks : Deployment where
  config := ⟨(smallServer 4096).native, (smallServer 4096).limits, none, [], []⟩
  epoch := ascii "epoch"
  producer := default
  calls := [talkCall, talkCall]

def rivalTurns : List (Turn Moment Listening) :=
  [0, 1, 0, 0].map fun index => .thread index ⟨⟨0, 0⟩, 0, fun _ => 1, fun _ => 2⟩

theorem ingress_accounted_rivals :
    ((rivalTalks.run rivalTurns).result? 0).map (fun result => result.status.code) = some .ok ∧
    ((rivalTalks.run rivalTurns).result? 1).map (fun result => result.status.code) =
      some .alreadyExists ∧
    ∀ result, (rivalTalks.run rivalTurns).result? 0 = some result →
      Accounted rivalTalks.config.native.sha256 (rivalTalks.run rivalTurns).state.published 0
        result :=
  ⟨by decide +kernel, by decide +kernel,
    (ingress_accounted rivalTalks rivalTurns 0 (by decide)).2.2⟩

end GrpcAsr.Media
