import GrpcAsr.Media.Delivery
import GrpcAsr.Media.Lifecycle

/-!
# Listeners do not interfere

What producers see of the registry is what they would see without any listener. What a
listener is handed is a function of its hydrated mailbox and of the sequence in which its
own calls and the published events reach it, so other listeners cannot influence it.
-/

namespace GrpcAsr.Media

set_option autoImplicit false

open Emitting

def Operation.isProducer : Operation → Bool
  | .openStream .. | .source .. | .derived .. | .close .. => true
  | .subscribe .. | .next _ | .cancel _ | .release _ => false

/-- The system as it would be without listeners. -/
def System.quiet (system : System) : System :=
  ⟨{ system.registry with subscribers := [] }, []⟩

variable {native : Native} {system : System}

theorem reclaim_quiet (registry : Registry) :
    { registry with subscribers := [] }.reclaim =
      { registry.reclaim with subscribers := [] } := by
  obtain ⟨limits, epoch, producer, streams, subscribers⟩ := registry
  simp only [Registry.reclaim]
  split
  · cases reclaimable streams <;> rfl
  · rfl

/-- The outcome is the other one with listeners added. -/
structure QuietAs (outcome quiet : Outcome System Emission Failure) : Prop where
  state : outcome.state.quiet = quiet.state
  emitted : outcome.emitted = quiet.emitted
  error : outcome.error = quiet.error

theorem publish_quiet (id : Bytes) (stream : Stream) (now : Timestamp) (draft : EventDraft) :
    QuietAs (system.publish id stream now draft) (system.quiet.publish id stream now draft) :=
  ⟨rfl, rfl, rfl⟩

theorem refuse_quiet (error : Failure) :
    QuietAs (system.refuse error) (system.quiet.refuse error) := ⟨rfl, rfl, rfl⟩

theorem openStream_quiet (request : OpenStream) (speechEnabled httpEnabled : Bool)
    (idEntropy incarnationEntropy : Entropy) (now : Timestamp) :
    QuietAs
      (system.openStream native request speechEnabled httpEnabled idEntropy incarnationEntropy now)
      (system.quiet.openStream native request speechEnabled httpEnabled idEntropy
        incarnationEntropy now) := by
  simp only [System.openStream, System.quiet, reclaim_quiet]
  split
  · exact refuse_quiet _
  · split
    · exact publish_quiet _ _ _ _
    · exact refuse_quiet _

/-- A producer's step is the same without listeners. -/
theorem step_quiet {operation : Operation} (h : operation.isProducer = true) :
    QuietAs (system.step native operation) (system.quiet.step native operation) := by
  cases operation with
  | openStream request speechEnabled httpEnabled idEntropy incarnationEntropy now =>
    exact openStream_quiet ..
  | source id chunk now =>
    simp only [System.step, System.source, System.openStreamAt, System.quiet]
    split
    · exact refuse_quiet _
    · exact publish_quiet _ _ _ _
  | derived id draft libraryVersion now =>
    simp only [System.step, System.derived, System.openStreamAt, System.quiet]
    split
    · exact refuse_quiet _
    · exact publish_quiet _ _ _ _
  | close id closed now steadyNow =>
    simp only [System.step, System.close, System.openStreamAt, System.quiet]
    split
    · exact refuse_quiet _
    · exact publish_quiet _ _ _ _
  | _ => cases h

/-- A listener's step is invisible to producers. -/
theorem step_listening {operation : Operation} (h : operation.isProducer = false) :
    (system.step native operation).state.quiet = system.quiet ∧
      publishedEvents (system.step native operation).emitted = [] := by
  have hStep := step_change native system operation
  generalize system.step native operation = outcome at hStep ⊢
  cases hStep with
  | received handle sub hBox => exact ⟨rfl, publishedEvents_delivered _ _⟩
  | refused | unsubscribed | subscribed | nothing | cancelled | released => exact ⟨rfl, rfl⟩
  | opened | unopened => cases h
  | continued id now hOld hOpen hNext => cases hNext <;> cases h

/-- What an operation returns: its failure or the event it published. -/
structure OperationResult where
  error : Option Failure
  published : List StreamEvent

def resultOf (outcome : Outcome System Emission Failure) : OperationResult :=
  ⟨outcome.error, publishedEvents outcome.emitted⟩

/-- The results of the producers' operations, in order. -/
def producerResults (native : Native) : System → List Operation → List OperationResult
  | _, [] => []
  | system, operation :: operations =>
    (if operation.isProducer then [resultOf (system.step native operation)] else []) ++
      producerResults native (system.step native operation).state operations

theorem producerResults_snoc (native : Native) (system : System) (operations : List Operation)
    (operation : Operation) :
    producerResults native system (operations ++ [operation]) =
      producerResults native system operations ++
        if operation.isProducer then
          [resultOf ((after (System.step native) system operations).step native operation)]
        else [] := by
  induction operations generalizing system with
  | nil => simp [producerResults]
  | cons first operations ih =>
    rw [List.cons_append, producerResults, ih, producerResults, List.append_assoc]
    rfl

namespace Server

variable (server : Server)

def results (operations : List Operation) : List OperationResult :=
  producerResults server.native server.start operations

theorem results_snoc (operations : List Operation) (operation : Operation) :
    server.results (operations ++ [operation]) = server.results operations ++
      if operation.isProducer then
        [resultOf ((server.state operations).step server.native operation)]
      else [] := producerResults_snoc ..

/-- Producers see the registry as if they were alone. -/
theorem alone (operations : List Operation) :
    (server.state operations).quiet = server.state (operations.filter Operation.isProducer) ∧
      server.log operations = server.log (operations.filter Operation.isProducer) ∧
      server.results operations = server.results (operations.filter Operation.isProducer) := by
  induction operations using List.reverseRecOn with
  | nil => exact ⟨rfl, rfl, rfl⟩
  | append_singleton operations operation ih =>
    obtain ⟨hState, hLog, hResults⟩ := ih
    rw [server.state_snoc, server.log_snoc, server.results_snoc, List.filter_append]
    by_cases hProducer : operation.isProducer = true
    · obtain ⟨hNext, hEmitted, hError⟩ :=
        @step_quiet server.native (server.state operations) operation hProducer
      rw [hState] at hNext hEmitted hError
      rw [List.filter_cons_of_pos hProducer, List.filter_nil, server.state_snoc, server.log_snoc,
        server.results_snoc, if_pos hProducer, hLog, hResults, hEmitted, hNext, resultOf, hEmitted,
        hError, if_pos hProducer]
      exact ⟨rfl, rfl, rfl⟩
    · rw [Bool.not_eq_true] at hProducer
      obtain ⟨hSame, hNone⟩ :=
        @step_listening server.native (server.state operations) operation hProducer
      rw [List.filter_cons_of_neg (by simp [hProducer]), List.filter_nil, List.append_nil, hSame,
        hNone, hProducer, hLog, hResults]
      exact ⟨hState, List.append_nil _, List.append_nil _⟩

end Server

/-- What concerns one listener: its own calls and what is published. -/
inductive Concern
  | published (event : StreamEvent)
  | next
  | cancel
  | release
  deriving DecidableEq

/-- What an operation that emits `emitted` means to the listener with the handle. -/
def Operation.concerns (handle : Nat) (emitted : List Emission) : Operation → List Concern
  | .next other => if other = handle then [.next] else []
  | .cancel other => if other = handle then [.cancel] else []
  | .release other => if other = handle then [.release] else []
  | _ => (publishedEvents emitted).map .published

namespace Mailbox

def hear (mailbox : Mailbox) : Concern → Mailbox
  | .published event => if mailbox.held then mailbox.offer event else mailbox
  | .next => if mailbox.held then { mailbox with subscription := mailbox.subscription.next.1 }
    else mailbox
  | .cancel => { mailbox with subscription := mailbox.subscription.cancel }
  | .release => { mailbox with held := false }

def handsOut (mailbox : Mailbox) : Concern → List SubscribeResponse
  | .next => if mailbox.held then mailbox.subscription.next.2.toList else []
  | _ => []

/-- The responses handed out along the way. -/
def play : Mailbox → List Concern → List SubscribeResponse
  | _, [] => []
  | mailbox, concern :: concerns => mailbox.handsOut concern ++ (mailbox.hear concern).play concerns

end Mailbox

/-- Every held mailbox is registered. -/
def System.Heeds (system : System) : Prop :=
  ∀ (handle : Nat) (mailbox : Mailbox), system.mailboxes[handle]? = some mailbox →
    mailbox.held = true → handle ∈ system.registry.subscribers

theorem held_eq {handle : Nat} {mailbox : Mailbox} (h : system.mailboxes[handle]? = some mailbox) :
    system.held handle = mailbox.held := by
  rw [System.held, h]

theorem publish_hears (hWired : system.Wired) (hHeeds : system.Heeds) {handle : Nat}
    {mailbox : Mailbox} (hBox : system.mailboxes[handle]? = some mailbox) (id : Bytes)
    (stream : Stream) (now : Timestamp) (draft : EventDraft) :
    (system.publish id stream now draft).state.mailboxes[handle]? =
      some (mailbox.hear (.published (stream.stamp system.registry.epoch id now draft))) := by
  rw [System.publish, getElem?_foldl_modify _ hWired.prune.1, hBox, Mailbox.hear]
  by_cases hHeld : mailbox.held = true
  · have hLive := mem_liveSubscribers.mpr ⟨hHeeds handle mailbox hBox hHeld,
      (held_eq hBox).trans hHeld⟩
    rw [if_pos hLive, if_pos hHeld]
    rfl
  · have hDead : handle ∉ system.liveSubscribers := fun hLive =>
      hHeld ((held_eq hBox).symm.trans (mem_liveSubscribers.mp hLive).2)
    rw [if_neg hDead, if_neg hHeld]

theorem deliveredTo_map (handle other : Nat) (responses : List SubscribeResponse) :
    deliveredTo handle (responses.map (.delivered other)) =
      if other = handle then responses else [] := by
  rw [deliveredTo, List.filterMap_map]
  split
  · rename_i hSame
    simp [hSame]
  · rename_i hOther
    exact List.filterMap_eq_nil_iff.mpr fun _ _ => if_neg hOther

theorem update_hears {handle : Nat} {mailbox : Mailbox}
    (hBox : system.mailboxes[handle]? = some mailbox) (other : Nat) (f : Mailbox → Mailbox) :
    (system.update other f).state.mailboxes[handle]? =
      some (if other = handle then f mailbox else mailbox) := by
  rw [System.update, List.getElem?_modify, hBox]
  split <;> rfl

/-- The mailbox a listening call works on. -/
def Operation.addressee : Operation → Option Nat
  | .next handle | .cancel handle | .release handle => some handle
  | _ => none

theorem concerns_of_none {operation : Operation} (h : operation.addressee = none) (handle : Nat)
    (emitted : List Emission) :
    operation.concerns handle emitted = (publishedEvents emitted).map .published := by
  cases operation <;> first | rfl | cases h

theorem System.Heeds.reclaim (h : system.Heeds) :
    System.Heeds { system with registry := system.registry.reclaim } := by
  intro handle mailbox hBox hHeld
  rw [reclaim_subscribers]
  exact h handle mailbox hBox hHeld

theorem step_hears_published (hWired : system.Wired) (hHeeds : system.Heeds) {handle : Nat}
    {mailbox : Mailbox} (hBox : system.mailboxes[handle]? = some mailbox) {operation : Operation}
    (hOperation : operation.addressee = none) :
    (system.step native operation).state.mailboxes[handle]? =
        some (((publishedEvents (system.step native operation).emitted).map .published).foldl
          Mailbox.hear mailbox) ∧
      deliveredTo handle (system.step native operation).emitted =
        mailbox.play
          ((publishedEvents (system.step native operation).emitted).map .published) := by
  have hStep := step_change native system operation
  generalize system.step native operation = outcome at hStep ⊢
  cases hStep with
  | opened id hId hNew => exact ⟨publish_hears hWired.reclaim hHeeds.reclaim hBox _ _ _ _, rfl⟩
  | continued id now hOld hOpen hNext => exact ⟨publish_hears hWired hHeeds hBox _ _ _ _, rfl⟩
  | subscribed sub hSub =>
    exact ⟨(List.getElem?_append_left (List.getElem?_eq_some_iff.mp hBox).1).trans hBox, rfl⟩
  | refused | unopened | unsubscribed => exact ⟨hBox, rfl⟩
  | received | nothing | cancelled | released => cases hOperation

/-- A step does to a mailbox what concerns its listener, and nothing else. -/
theorem step_hears (hWired : system.Wired) (hHeeds : system.Heeds) {handle : Nat}
    {mailbox : Mailbox} (hBox : system.mailboxes[handle]? = some mailbox) (operation : Operation) :
    (system.step native operation).state.mailboxes[handle]? =
        some ((operation.concerns handle (system.step native operation).emitted).foldl
          Mailbox.hear mailbox) ∧
      deliveredTo handle (system.step native operation).emitted =
        mailbox.play (operation.concerns handle (system.step native operation).emitted) := by
  cases operation with
  | next other =>
    by_cases hSame : other = handle
    · subst hSame
      obtain ⟨sub, held⟩ := mailbox
      cases held with
      | true =>
        simp only [System.step, System.receive, hBox, Operation.concerns, if_true, deliveredTo_map]
        rw [List.getElem?_set_self (List.getElem?_eq_some_iff.mp hBox).1]
        exact ⟨rfl, (List.append_nil _).symm⟩
      | false =>
        simp only [System.step, System.receive, hBox, Operation.concerns, if_true]
        exact ⟨rfl, rfl⟩
    · simp only [System.step, System.receive, Operation.concerns, if_neg hSame]
      split
      · rw [deliveredTo_map, if_neg hSame]
        exact ⟨(List.getElem?_set_ne hSame).trans hBox, rfl⟩
      · exact ⟨hBox, rfl⟩
  | cancel other =>
    refine ⟨(update_hears hBox other _).trans ?_, ?_⟩
    · simp only [Operation.concerns]
      split <;> rfl
    · simp only [Operation.concerns]
      split <;> rfl
  | release other =>
    refine ⟨(update_hears hBox other _).trans ?_, ?_⟩
    · simp only [Operation.concerns]
      split <;> rfl
    · simp only [Operation.concerns]
      split <;> rfl
  | _ => exact step_hears_published hWired hHeeds hBox rfl

theorem hear_held {mailbox : Mailbox} {concern : Concern} (h : (mailbox.hear concern).held = true) :
    mailbox.held = true := by
  cases concern with
  | published event =>
    rw [Mailbox.hear] at h
    split at h
    · assumption
    · exact h
  | next =>
    rw [Mailbox.hear] at h
    split at h
    · assumption
    · exact h
  | cancel => exact h
  | release => cases h

theorem foldl_hear_held {concerns : List Concern} {mailbox : Mailbox}
    (h : (concerns.foldl Mailbox.hear mailbox).held = true) : mailbox.held = true := by
  induction concerns generalizing mailbox with
  | nil => exact h
  | cons concern concerns ih => exact hear_held (ih h)

theorem step_new_mailbox {operation : Operation} {handle : Nat} {mailbox : Mailbox}
    (hNone : system.mailboxes[handle]? = none)
    (hBox : (system.step native operation).state.mailboxes[handle]? = some mailbox) :
    ∃ request entropy sub, operation = .subscribe request entropy ∧
      System.newMailbox { system.registry with subscribers := system.liveSubscribers } request entropy =
        .ok sub ∧
      mailbox = ⟨sub, true⟩ ∧
      handle ∈ (system.step native operation).state.registry.subscribers := by
  have hStep := step_change native system operation
  generalize system.step native operation = outcome at hStep hBox ⊢
  rw [List.getElem?_eq_none_iff] at hNone
  have hOld {boxes : List Mailbox} (hLength : boxes.length = system.mailboxes.length)
      (hFound : boxes[handle]? = some mailbox) : False := by
    have hBound := (List.getElem?_eq_some_iff.mp hFound).1
    omega
  cases hStep with
  | opened | continued => exact (hOld (length_foldl_modify _ _ _) hBox).elim
  | subscribed sub hSub =>
    have hLast : handle = system.mailboxes.length := by
      have hBound := (List.getElem?_eq_some_iff.mp hBox).1
      rw [List.length_append, List.length_singleton] at hBound
      omega
    subst hLast
    rw [List.getElem?_concat_length] at hBox
    exact ⟨_, _, sub, rfl, hSub, (Option.some.inj hBox).symm,
      List.mem_append_right _ (List.mem_singleton.mpr rfl)⟩
  | received => exact (hOld List.length_set hBox).elim
  | cancelled | released => exact (hOld (List.length_modify _ _ _) hBox).elim
  | refused | unopened | unsubscribed | nothing => exact (hOld rfl hBox).elim

theorem step_subscribers (operation : Operation) {handle : Nat}
    (hMem : handle ∈ system.registry.subscribers) (hHeld : system.held handle = true) :
    handle ∈ (system.step native operation).state.registry.subscribers := by
  have hLive := mem_liveSubscribers.mpr ⟨hMem, hHeld⟩
  have hStep := step_change native system operation
  generalize system.step native operation = outcome at hStep ⊢
  cases hStep with
  | opened =>
    refine mem_liveSubscribers.mpr ⟨?_, hHeld⟩
    rw [reclaim_subscribers]
    exact hMem
  | unopened =>
    rw [System.refuse, reclaim_subscribers]
    exact hMem
  | continued | unsubscribed => exact hLive
  | subscribed => exact List.mem_append_left _ hLive
  | _ => exact hMem

theorem System.Heeds.step (hWired : system.Wired) (h : system.Heeds) (operation : Operation) :
    (system.step native operation).state.Heeds := by
  intro handle mailbox hBox hHeld
  cases hOld : system.mailboxes[handle]? with
  | none =>
    obtain ⟨_, _, _, -, -, -, hMem⟩ := step_new_mailbox hOld hBox
    exact hMem
  | some old =>
    rw [(step_hears hWired h hOld operation).1] at hBox
    obtain rfl := Option.some.inj hBox
    have hBefore := foldl_hear_held hHeld
    exact step_subscribers operation (h handle old hOld hBefore) ((held_eq hOld).trans hBefore)

theorem play_append (mailbox : Mailbox) (concerns later : List Concern) :
    mailbox.play (concerns ++ later) =
      mailbox.play concerns ++ (concerns.foldl Mailbox.hear mailbox).play later := by
  induction concerns generalizing mailbox with
  | nil => rfl
  | cons concern concerns ih =>
    rw [List.cons_append, Mailbox.play, ih, Mailbox.play, List.append_assoc]
    rfl

namespace Server

variable (server : Server)

theorem heeds (operations : List Operation) : (server.state operations).Heeds := by
  induction operations using List.reverseRecOn with
  | nil => simp [System.Heeds, Server.start, System.initial]
  | append_singleton operations operation ih =>
    rw [server.state_snoc]
    exact ih.step (server.wired operations) operation

/-- What concerns the listener with the handle in the `later` part of a run, in order. -/
def timeline (handle : Nat) (before : List Operation) : List Operation → List Concern
  | [] => []
  | operation :: later =>
    operation.concerns handle ((server.state before).step server.native operation).emitted ++
      timeline handle (before ++ [operation]) later

/-- A mailbox and what was taken from it are functions of the listener's timeline. -/
theorem plays {handle : Nat} {before : List Operation} {mailbox : Mailbox}
    (hBox : (server.state before).mailboxes[handle]? = some mailbox) (later : List Operation) :
    (server.state (before ++ later)).mailboxes[handle]? =
        some ((server.timeline handle before later).foldl Mailbox.hear mailbox) ∧
      server.received handle (before ++ later) =
        server.received handle before ++ mailbox.play (server.timeline handle before later) := by
  induction later generalizing before mailbox with
  | nil =>
    rw [List.append_nil]
    exact ⟨hBox, (List.append_nil _).symm⟩
  | cons operation later ih =>
    obtain ⟨hNext, hDelivered⟩ := @step_hears server.native _ (server.wired before)
      (server.heeds before) handle mailbox hBox operation
    rw [← server.state_snoc] at hNext
    obtain ⟨hLast, hReceived⟩ := ih hNext
    rw [List.append_assoc, List.singleton_append] at hLast hReceived
    rw [hLast, hReceived, server.received_snoc, hDelivered, timeline, List.foldl_append,
      play_append, List.append_assoc]
    exact ⟨rfl, rfl⟩

end Server

/-- The hydrated mailbox of a listener that is admitted. -/
def hydrated (registry : Registry) (request : SubscribeRequest) (entropy : Entropy) :
    Except Failure Subscription := do
  let sub := Subscription.create request registry.limits.subscriberBytes
  let replay ← request.hydration.after.foldlM (System.replayCursor registry sub) ∅
  (System.hydrate registry.streams request.hydration replay sub (uuid entropy)).foldlM
    System.enqueue sub

theorem hydrated_of_newMailbox {registry : Registry} {request : SubscribeRequest} {entropy : Entropy}
    {sub : Subscription} (h : System.newMailbox registry request entropy = .ok sub) :
    hydrated { registry with subscribers := [] } request entropy = .ok sub := by
  obtain ⟨_, -, h⟩ := bind_eq_ok h
  exact h

theorem subscribe_mailbox {request : SubscribeRequest} {entropy : Entropy}
    (hOk : (system.step native (.subscribe request entropy)).error = none) :
    ∃ sub, hydrated system.quiet.registry request entropy = .ok sub ∧
      (system.step native (.subscribe request entropy)).state.mailboxes[system.mailboxes.length]? =
        some ⟨sub, true⟩ ∧
      (system.step native (.subscribe request entropy)).emitted = [] := by
  have hStep := step_change native system (.subscribe request entropy)
  generalize system.step native (.subscribe request entropy) = outcome at hStep hOk ⊢
  cases hStep with
  | refused | unsubscribed => cases hOk
  | continued id now hOld hOpen hNext => cases hNext
  | subscribed sub hSub =>
    have hHydrated := hydrated_of_newMailbox hSub
    exact ⟨sub, hHydrated, by simp, rfl⟩

/-- Everything received since the subscription, and the mailbox, as functions of the
producers' run before it, the request and the timeline. -/
theorem Server.subscription_plays (server : Server) {before : List Operation}
    {request : SubscribeRequest} {entropy : Entropy}
    (hOk : ((server.state before).step server.native (.subscribe request entropy)).error = none)
    (later : List Operation) :
    ∃ sub, hydrated (server.state (before.filter Operation.isProducer)).registry request entropy =
        .ok sub ∧
      (server.state (before ++ [.subscribe request entropy] ++ later)).mailboxes[
          (server.state before).mailboxes.length]? =
        some ((server.timeline (server.state before).mailboxes.length
          (before ++ [.subscribe request entropy]) later).foldl Mailbox.hear ⟨sub, true⟩) ∧
      server.received (server.state before).mailboxes.length
          (before ++ [.subscribe request entropy] ++ later) =
        Mailbox.play ⟨sub, true⟩ (server.timeline (server.state before).mailboxes.length
          (before ++ [.subscribe request entropy]) later) := by
  obtain ⟨sub, hHydrated, hBox, hEmitted⟩ := subscribe_mailbox hOk
  rw [← server.state_snoc] at hBox
  obtain ⟨hLast, hReceived⟩ := server.plays hBox later
  rw [(server.alone before).1] at hHydrated
  refine ⟨sub, hHydrated, hLast, ?_⟩
  rw [hReceived, server.received_snoc, hEmitted, server.unreceived before (Nat.le_refl _)]
  rfl

/-- The byte counter is the charge of the queue and within the limit, and a stopped queue is
empty. -/
structure Subscription.Balanced (limit : Nat) (sub : Subscription) : Prop where
  limited : sub.limit = limit
  counted : sub.bytes = (sub.pending.map SubscribeResponse.charge).sum
  bounded : sub.bytes ≤ limit
  emptied : sub.stopped = true → sub.pending = []

/-- The subscription has overflowed. -/
structure Subscription.Overflowed (sub : Subscription) : Prop where
  stopped : sub.stopped = true
  pending : sub.pending = []
  bytes : sub.bytes = 0
  status : sub.status =
    ⟨.resourceExhausted, "subscriber queue exhausted; resume using last delivered cursor"⟩

namespace Subscription

variable {limit : Nat} {sub : Subscription}

theorem Balanced.create (request : SubscribeRequest) (limit : Nat) :
    (Subscription.create request limit).Balanced limit :=
  ⟨rfl, rfl, Nat.zero_le _, fun _ => rfl⟩

theorem Balanced.push (h : sub.Balanced limit) (response : SubscribeResponse) :
    (sub.push response).1.Balanced limit := by
  unfold Subscription.push
  split
  · exact h
  · rename_i hRunning
    split
    · exact ⟨h.limited, rfl, Nat.zero_le _, fun _ => rfl⟩
    · rename_i hRoom
      have hLimited := h.limited
      refine ⟨h.limited, ?_, ?_, fun hStopped => absurd hStopped hRunning⟩
      · rw [List.map_append, List.sum_append, ← h.counted]
        simp
      · simp only
        omega

theorem Balanced.next (h : sub.Balanced limit) : sub.next.1.Balanced limit := by
  have hCounted := h.counted
  have hBounded := h.bounded
  unfold Subscription.next
  split
  · exact h
  · rename_i response rest hPending
    rw [hPending, List.map_cons, List.sum_cons] at hCounted
    refine ⟨h.limited, ?_, ?_, fun hStopped => ?_⟩
    · simp only
      omega
    · simp only
      omega
    · have hEmpty := h.emptied hStopped
      rw [hPending] at hEmpty
      cases hEmpty

theorem Balanced.cancel (h : sub.Balanced limit) : sub.cancel.Balanced limit :=
  ⟨h.limited, rfl, Nat.zero_le _, fun _ => rfl⟩

theorem Overflowed.push (h : sub.Overflowed) (response : SubscribeResponse) :
    (sub.push response).1.Overflowed := by
  rw [Subscription.push, if_pos h.stopped]
  exact h

theorem Overflowed.next (h : sub.Overflowed) : sub.next.1.Overflowed := by
  rw [Subscription.next, h.pending]
  exact h

theorem Overflowed.cancel (h : sub.Overflowed) : sub.cancel.Overflowed :=
  ⟨rfl, rfl, rfl, h.status⟩

/-- A message that does not fit overflows a running subscription. -/
theorem Balanced.overflow (h : sub.Balanced limit) (hRunning : sub.stopped = false)
    {response : SubscribeResponse}
    (hFull : limit < (sub.pending.map SubscribeResponse.charge).sum + response.charge) :
    (sub.push response).1.Overflowed := by
  have hCounted := h.counted
  have hLimited := h.limited
  rw [Subscription.push, if_neg (by simp [hRunning]), if_pos (by omega)]
  exact ⟨rfl, rfl, rfl, rfl⟩

end Subscription

namespace Mailbox

variable {P : Subscription → Prop} (hPush : ∀ sub response, P sub → P (sub.push response).1)
  (hNext : ∀ sub, P sub → P sub.next.1) (hCancel : ∀ sub, P sub → P sub.cancel)

include hPush hNext hCancel

theorem hear_keeps {mailbox : Mailbox} (h : P mailbox.subscription) (concern : Concern) :
    P (mailbox.hear concern).subscription := by
  cases concern with
  | published event =>
    simp only [hear, offer]
    split
    · split
      · exact hPush _ _ h
      · exact h
    · exact h
  | next =>
    simp only [hear]
    split
    · exact hNext _ h
    · exact h
  | cancel => exact hCancel _ h
  | release => exact h

/-- What the operations of a subscription keep, a whole timeline keeps. -/
theorem foldl_hear_keeps (concerns : List Concern) {mailbox : Mailbox}
    (h : P mailbox.subscription) : P (concerns.foldl hear mailbox).subscription := by
  induction concerns generalizing mailbox with
  | nil => exact h
  | cons concern concerns ih => exact ih (hear_keeps hPush hNext hCancel h concern)

end Mailbox

theorem enqueue_balanced {limit : Nat} {responses : List SubscribeResponse}
    {sub sub' : Subscription} (h : sub.Balanced limit)
    (hAll : responses.foldlM System.enqueue sub = .ok sub') : sub'.Balanced limit := by
  induction responses generalizing sub with
  | nil =>
    cases hAll
    exact h
  | cons response responses ih =>
    rw [List.foldlM_cons] at hAll
    obtain ⟨next, hNext, hAll⟩ := bind_eq_ok hAll
    unfold System.enqueue at hNext
    split at hNext
    · cases hNext
      exact ih (h.push response) hAll
    · cases hNext

theorem newMailbox_balanced {registry : Registry} {request : SubscribeRequest} {entropy : Entropy}
    {sub : Subscription} (h : System.newMailbox registry request entropy = .ok sub) :
    sub.Balanced registry.limits.subscriberBytes := by
  obtain ⟨_, -, h⟩ := bind_eq_ok h
  obtain ⟨replay, -, h⟩ := bind_eq_ok h
  exact enqueue_balanced (.create request _) h

theorem Server.balanced (server : Server) (operations : List Operation) :
    ∀ (handle : Nat) (mailbox : Mailbox),
      (server.state operations).mailboxes[handle]? = some mailbox →
      mailbox.subscription.Balanced server.limits.subscriberBytes := by
  induction operations using List.reverseRecOn with
  | nil => simp [Server.start, System.initial]
  | append_singleton operations operation ih =>
    intro handle mailbox hBox
    rw [server.state_snoc] at hBox
    cases hOld : (server.state operations).mailboxes[handle]? with
    | none =>
      obtain ⟨_, _, sub, -, hSub, rfl, -⟩ := step_new_mailbox hOld hBox
      rw [← server.state_limits operations]
      have hBalanced := newMailbox_balanced hSub
      exact hBalanced
    | some old =>
      rw [(step_hears (server.wired operations) (server.heeds operations) hOld operation).1] at hBox
      obtain rfl := Option.some.inj hBox
      exact Mailbox.foldl_hear_keeps (fun _ response hSub => hSub.push response)
        (fun _ hSub => hSub.next) (fun _ hSub => hSub.cancel) _ (ih handle old hOld)

/-- A listener whose queue has no room for an accepted event is cut off for good. -/
theorem Server.overflowed (server : Server) {before : List Operation} {operation : Operation}
    {handle : Nat} {mailbox : Mailbox} {event : StreamEvent}
    (hBox : (server.state before).mailboxes[handle]? = some mailbox) (hHeld : mailbox.held = true)
    (hRunning : mailbox.subscription.stopped = false)
    (hEvent : publishedEvents ((server.state before).step server.native operation).emitted =
      [event])
    (hAccepts : mailbox.subscription.accepts event = true)
    (hFull : server.limits.subscriberBytes <
      (mailbox.subscription.pending.map SubscribeResponse.charge).sum +
        (SubscribeResponse.event event).charge) (later : List Operation) :
    ∃ mailbox', (server.state (before ++ operation :: later)).mailboxes[handle]? =
      some mailbox' ∧ mailbox'.subscription.Overflowed := by
  have hPublishing : operation.addressee = none := by
    cases operation with
    | next | cancel | release =>
      rw [(step_listening rfl).2] at hEvent
      cases hEvent
    | _ => rfl
  obtain ⟨hLast, -⟩ := server.plays hBox (operation :: later)
  refine ⟨_, hLast, ?_⟩
  rw [Server.timeline, concerns_of_none hPublishing, hEvent, List.foldl_append]
  refine Mailbox.foldl_hear_keeps (fun _ response hSub => hSub.push response)
    (fun _ hSub => hSub.next) (fun _ hSub => hSub.cancel) _ ?_
  rw [List.map_singleton, List.foldl_cons, List.foldl_nil, Mailbox.hear, if_pos hHeld,
    Mailbox.offer, if_pos hAccepts]
  exact (server.balanced before handle mailbox hBox).overflow hRunning hFull

/-- Listeners influence neither the producers nor each other, and each mailbox keeps its
accounts. -/
theorem subscriber_isolation (server : Server) :
    (∀ operations operations' : List Operation,
      operations.filter Operation.isProducer = operations'.filter Operation.isProducer →
      server.results operations = server.results operations' ∧
        server.log operations = server.log operations' ∧
        (server.state operations).registry.streams =
          (server.state operations').registry.streams) ∧
    (∀ (request : SubscribeRequest) (entropy : Entropy)
      (before before' later later' : List Operation),
      before.filter Operation.isProducer = before'.filter Operation.isProducer →
      ((server.state before).step server.native (.subscribe request entropy)).error = none →
      ((server.state before').step server.native (.subscribe request entropy)).error = none →
      server.timeline (server.state before).mailboxes.length
          (before ++ [.subscribe request entropy]) later =
        server.timeline (server.state before').mailboxes.length
          (before' ++ [.subscribe request entropy]) later' →
      server.received (server.state before).mailboxes.length
          (before ++ [.subscribe request entropy] ++ later) =
        server.received (server.state before').mailboxes.length
          (before' ++ [.subscribe request entropy] ++ later')) ∧
    (∀ (operations : List Operation) (handle : Nat) (mailbox : Mailbox),
      (server.state operations).mailboxes[handle]? = some mailbox →
      mailbox.subscription.bytes =
          (mailbox.subscription.pending.map SubscribeResponse.charge).sum ∧
        mailbox.subscription.bytes ≤ server.limits.subscriberBytes) ∧
    ∀ (before : List Operation) (operation : Operation) (later : List Operation) (handle : Nat)
      (mailbox : Mailbox) (event : StreamEvent),
      (server.state before).mailboxes[handle]? = some mailbox → mailbox.held = true →
      mailbox.subscription.stopped = false →
      publishedEvents ((server.state before).step server.native operation).emitted = [event] →
      mailbox.subscription.accepts event = true →
      server.limits.subscriberBytes <
        (mailbox.subscription.pending.map SubscribeResponse.charge).sum +
          (SubscribeResponse.event event).charge →
      ∃ mailbox', (server.state (before ++ operation :: later)).mailboxes[handle]? =
        some mailbox' ∧ mailbox'.subscription.Overflowed := by
  refine ⟨?_, ?_, ?_, ?_⟩
  · intro operations operations' hSame
    obtain ⟨hState, hLog, hResults⟩ := server.alone operations
    obtain ⟨hState', hLog', hResults'⟩ := server.alone operations'
    rw [hSame] at hState hLog hResults
    have hStreams := congrArg (fun system : System => system.registry.streams)
      (hState.trans hState'.symm)
    exact ⟨hResults.trans hResults'.symm, hLog.trans hLog'.symm, hStreams⟩
  · intro request entropy before before' later later' hSame hOk hOk' hTimeline
    obtain ⟨sub, hSub, -, hReceived⟩ := server.subscription_plays hOk later
    obtain ⟨sub', hSub', -, hReceived'⟩ := server.subscription_plays hOk' later'
    rw [hSame, hSub'] at hSub
    obtain rfl := Except.ok.inj hSub
    rw [hReceived, hReceived', hTimeline]
  · intro operations handle mailbox hBox
    have hBalanced := server.balanced operations handle mailbox hBox
    exact ⟨hBalanced.counted, hBalanced.bounded⟩
  · intro before operation later handle mailbox event hBox hHeld hRunning hEvent hAccepts hFull
    exact server.overflowed hBox hHeld hRunning hEvent hAccepts hFull later

def hearEverything : Operation := .subscribe ⟨[], ⟨false, true, []⟩, []⟩ (fun _ => 6)

/-- A listener on its own, and one that comes second and sees the first one go. -/
theorem subscriber_isolation_crowded :
    (smallServer 4096).received ((smallServer 4096).state [openTalk 1]).mailboxes.length
        ([openTalk 1] ++ [hearEverything] ++ [talkChunk 1, .next 0, .next 0]) =
      (smallServer 4096).received
        ((smallServer 4096).state [hearEverything, openTalk 1]).mailboxes.length
        ([hearEverything, openTalk 1] ++ [hearEverything] ++
          [.cancel 0, talkChunk 1, .next 0, .next 1, .release 0, .next 1]) ∧
    ((smallServer 4096).received 0
      [openTalk 1, hearEverything, talkChunk 1, .next 0, .next 0]).length = 2 :=
  ⟨(subscriber_isolation (smallServer 4096)).2.1 ⟨[], ⟨false, true, []⟩, []⟩ (fun _ => 6)
      [openTalk 1] [hearEverything, openTalk 1] [talkChunk 1, .next 0, .next 0]
      [.cancel 0, talkChunk 1, .next 0, .next 1, .release 0, .next 1] (by rfl)
      (by decide +kernel) (by decide +kernel) (by decide +kernel),
    by decide +kernel⟩

end GrpcAsr.Media
