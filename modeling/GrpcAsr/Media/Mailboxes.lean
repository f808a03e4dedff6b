import GrpcAsr.Media.EventLog

/-!
# What a listener's mailbox is fed

While a listening call holds its mailbox and the mailbox is not stopped, the responses
taken from it followed by the queued ones are what it was hydrated with followed by
every accepted event published since, in order. A handle is registered once and stays
registered as long as its mailbox is held.
-/

namespace GrpcAsr.Media

set_option autoImplicit false

open Emitting

def SubscribeRequest.accepts (request : SubscribeRequest) (event : StreamEvent) : Bool :=
  (Subscription.create request 0).accepts event

/-- Live listeners are registered once, under handles of existing mailboxes. -/
structure System.Wired (system : System) : Prop where
  nodup : system.registry.subscribers.Nodup
  bound : ∀ handle ∈ system.registry.subscribers, handle < system.mailboxes.length

/-- The mailbox of `request` after `taken` was received, when its feed has been `fed`. -/
structure System.Feeds (system : System) (request : SubscribeRequest) (handle : Nat)
    (taken fed : List SubscribeResponse) (mailbox : Mailbox) : Prop where
  found : system.mailboxes[handle]? = some mailbox
  ids : mailbox.subscription.ids = request.streamIds
  kinds : mailbox.subscription.kinds = request.payloadKinds
  registered : mailbox.held = true → handle ∈ system.registry.subscribers
  content : mailbox.held = true → mailbox.subscription.stopped = false →
    taken ++ mailbox.subscription.pending = fed

theorem accepts_eq {sub : Subscription} {request : SubscribeRequest}
    (hIds : sub.ids = request.streamIds) (hKinds : sub.kinds = request.payloadKinds)
    (event : StreamEvent) : sub.accepts event = request.accepts event := by
  have hPayload : sub.acceptsPayload event.payload =
      (Subscription.create request 0).acceptsPayload event.payload := by
    unfold Subscription.acceptsPayload
    rw [hKinds]
    rfl
  rw [SubscribeRequest.accepts, Subscription.accepts, Subscription.accepts, hPayload,
    Subscription.acceptsId, hIds]
  rfl

theorem getElem?_foldl_modify {α : Type} (f : α → α) {handles : List Nat} (h : handles.Nodup)
    (boxes : List α) (i : Nat) :
    (handles.foldl (fun boxes handle => boxes.modify handle f) boxes)[i]? =
      if i ∈ handles then boxes[i]?.map f else boxes[i]? := by
  induction handles generalizing boxes with
  | nil => rfl
  | cons handle handles ih =>
    obtain ⟨hFirst, hRest⟩ := List.nodup_cons.mp h
    rw [List.foldl_cons, ih hRest, List.getElem?_modify]
    by_cases hSame : handle = i
    · subst hSame
      simp [hFirst]
    · have hOther : i ≠ handle := fun hEq => hSame hEq.symm
      simp [hSame, hOther]

theorem length_foldl_modify {α : Type} (f : α → α) (handles : List Nat) (boxes : List α) :
    (handles.foldl (fun boxes handle => boxes.modify handle f) boxes).length = boxes.length := by
  induction handles generalizing boxes with
  | nil => rfl
  | cons handle handles ih => rw [List.foldl_cons, ih, List.length_modify]

variable {native : Native} {system : System}

theorem mem_liveSubscribers {handle : Nat} :
    handle ∈ system.liveSubscribers ↔
      handle ∈ system.registry.subscribers ∧ system.held handle = true := List.mem_filter

namespace System.Wired

theorem prune (h : system.Wired) : system.liveSubscribers.Nodup ∧
    ∀ handle ∈ system.liveSubscribers, handle < system.mailboxes.length :=
  ⟨h.nodup.filter _, fun handle hMem => h.bound handle (mem_liveSubscribers.mp hMem).1⟩

theorem publish (h : system.Wired) (id : Bytes) (stream : Stream) (now : Timestamp)
    (draft : EventDraft) : (system.publish id stream now draft).state.Wired := by
  refine ⟨h.prune.1, fun handle hMem => ?_⟩
  rw [System.publish, length_foldl_modify]
  exact h.prune.2 handle hMem

theorem reclaim (h : system.Wired) :
    System.Wired { system with registry := system.registry.reclaim } :=
  ⟨by simpa using h.nodup, by simpa using h.bound⟩

theorem step (h : system.Wired) (operation : Operation) :
    (system.step native operation).state.Wired := by
  have hStep := step_change native system operation
  generalize system.step native operation = outcome at hStep ⊢
  cases hStep with
  | opened id hId hNew => exact h.reclaim.publish _ _ _ _
  | unopened error => exact h.reclaim
  | refused operation error => exact h
  | continued id now hOld hOpen hNext => exact h.publish _ _ _ _
  | unsubscribed error => exact ⟨h.prune.1, h.prune.2⟩
  | subscribed sub hSub =>
    refine ⟨?_, fun handle hMem => ?_⟩
    · refine List.nodup_append.mpr ⟨h.prune.1, List.nodup_singleton _, ?_⟩
      intro handle hMem other hOther hEq
      rw [List.mem_singleton.mp hOther] at hEq
      exact Nat.ne_of_lt (h.prune.2 handle hMem) hEq
    · rw [List.length_append, List.length_singleton]
      rcases List.mem_append.mp hMem with hOld | hNew
      · exact Nat.lt_succ_of_lt (h.prune.2 handle hOld)
      · rw [List.mem_singleton.mp hNew]
        exact Nat.lt_succ_self _
  | received handle sub hBox => exact ⟨h.nodup, by simpa using h.bound⟩
  | nothing handle => exact h
  | cancelled handle => exact ⟨h.nodup, by simpa [System.update] using h.bound⟩
  | released handle => exact ⟨h.nodup, by simpa [System.update] using h.bound⟩

end System.Wired

theorem push_frame (sub : Subscription) (response : SubscribeResponse) :
    (sub.push response).1.ids = sub.ids ∧ (sub.push response).1.kinds = sub.kinds := by
  unfold Subscription.push
  split
  · exact ⟨rfl, rfl⟩
  · split <;> exact ⟨rfl, rfl⟩

/-- A push that leaves the subscription running has queued its message. -/
theorem push_running {sub : Subscription} {response : SubscribeResponse}
    (h : (sub.push response).1.stopped = false) :
    sub.stopped = false ∧ (sub.push response).1.pending = sub.pending ++ [response] := by
  cases hPush : (sub.push response).2 with
  | false =>
    rw [Subscription.push_failed hPush] at h
    cases h
  | true =>
    rw [Subscription.push_ok hPush] at h ⊢
    exact ⟨h, rfl⟩

theorem offer_frame (event : StreamEvent) (mailbox : Mailbox) :
    (mailbox.offer event).held = mailbox.held ∧
      (mailbox.offer event).subscription.ids = mailbox.subscription.ids ∧
      (mailbox.offer event).subscription.kinds = mailbox.subscription.kinds := by
  unfold Mailbox.offer
  split
  · exact ⟨rfl, push_frame _ _⟩
  · exact ⟨rfl, rfl, rfl⟩

theorem offer_running {event : StreamEvent} {mailbox : Mailbox}
    (h : (mailbox.offer event).subscription.stopped = false) :
    mailbox.subscription.stopped = false ∧ (mailbox.offer event).subscription.pending =
      mailbox.subscription.pending ++
        ([event].filter mailbox.subscription.accepts).map .event := by
  unfold Mailbox.offer at h ⊢
  split at h
  · rename_i hAccepts
    rw [if_pos hAccepts, List.filter_cons_of_pos hAccepts]
    exact push_running h
  · rename_i hIgnores
    rw [if_neg hIgnores, List.filter_cons_of_neg hIgnores]
    exact ⟨h, (List.append_nil _).symm⟩

namespace System.Feeds

variable {request : SubscribeRequest} {handle : Nat} {taken fed : List SubscribeResponse}
  {mailbox : Mailbox}

theorem held_iff (h : system.Feeds request handle taken fed mailbox) :
    system.held handle = mailbox.held := by
  rw [System.held, h.found]

theorem live (h : system.Feeds request handle taken fed mailbox) (hHeld : mailbox.held = true) :
    handle ∈ system.liveSubscribers :=
  mem_liveSubscribers.mpr ⟨h.registered hHeld, h.held_iff.trans hHeld⟩

theorem publish (h : system.Feeds request handle taken fed mailbox) (hWired : system.Wired)
    (id : Bytes) (stream : Stream) (now : Timestamp) (draft : EventDraft) :
    ∃ mailbox', (system.publish id stream now draft).state.Feeds request handle taken
      (fed ++ ([stream.stamp system.registry.epoch id now draft].filter request.accepts).map .event)
      mailbox' := by
  generalize hEvent : stream.stamp system.registry.epoch id now draft = event
  have hFound : (system.publish id stream now draft).state.mailboxes[handle]? =
      some (if handle ∈ system.liveSubscribers then mailbox.offer event else mailbox) := by
    rw [System.publish, getElem?_foldl_modify _ hWired.prune.1, h.found, hEvent]
    split <;> rfl
  by_cases hLive : handle ∈ system.liveSubscribers
  · rw [if_pos hLive] at hFound
    obtain ⟨hHeld, hIds, hKinds⟩ := offer_frame event mailbox
    refine ⟨_, hFound, hIds.trans h.ids, hKinds.trans h.kinds, fun _ => hLive, ?_⟩
    intro hHolds hRunning
    obtain ⟨hBefore, hPending⟩ := offer_running hRunning
    have hAccepts : mailbox.subscription.accepts = request.accepts :=
      funext (accepts_eq h.ids h.kinds)
    rw [hPending, ← List.append_assoc, h.content (hHeld ▸ hHolds) hBefore, hAccepts]
  · rw [if_neg hLive] at hFound
    have hReleased : mailbox.held ≠ true := fun hHeld => hLive (h.live hHeld)
    exact ⟨_, hFound, h.ids, h.kinds, fun hHeld => absurd hHeld hReleased,
      fun hHeld => absurd hHeld hReleased⟩

theorem receive (h : system.Feeds request handle taken fed mailbox) {other : Nat}
    {sub : Subscription} (hBox : system.mailboxes[other]? = some ⟨sub, true⟩) :
    ∃ mailbox', System.Feeds
      { system with mailboxes := system.mailboxes.set other ⟨sub.next.1, true⟩ } request handle
      (taken ++ deliveredTo handle (sub.next.2.toList.map (.delivered other))) fed mailbox' := by
  by_cases hSame : other = handle
  · subst hSame
    obtain rfl : ⟨sub, true⟩ = mailbox := Option.some.inj (hBox.symm.trans h.found)
    have hFound : (system.mailboxes.set other ⟨sub.next.1, true⟩)[other]? =
        some ⟨sub.next.1, true⟩ := by
      rw [List.getElem?_set_self (List.getElem?_eq_some_iff.mp hBox).1]
    have hContent := h.content rfl
    have hIds := h.ids
    have hKinds := h.kinds
    simp only at hContent hIds hKinds
    refine ⟨_, hFound, ?_, ?_, h.registered, fun _ => ?_⟩
    all_goals
      unfold Subscription.next
      split
    · exact hIds
    · exact hIds
    · exact hKinds
    · exact hKinds
    · simpa [deliveredTo] using hContent
    · rename_i response rest hPending
      rw [hPending] at hContent
      simpa [deliveredTo] using hContent
  · have hNone : deliveredTo handle (sub.next.2.toList.map (.delivered other)) = [] := by
      rw [deliveredTo, List.filterMap_map]
      exact List.filterMap_eq_nil_iff.mpr fun _ _ => if_neg hSame
    rw [hNone, List.append_nil]
    exact ⟨mailbox, (List.getElem?_set_ne hSame).trans h.found, h.ids, h.kinds, h.registered,
      h.content⟩

/-- A change to a mailbox that stops it, or gives it up, feeds nothing. -/
theorem update (h : system.Feeds request handle taken fed mailbox) (other : Nat)
    (f : Mailbox → Mailbox)
    (hFrame : (f mailbox).subscription.ids = mailbox.subscription.ids ∧
      (f mailbox).subscription.kinds = mailbox.subscription.kinds ∧
      ((f mailbox).held = true → mailbox.held = true))
    (hOver : (f mailbox).held = true → (f mailbox).subscription.stopped = false → False) :
    ∃ mailbox', (system.update other f).state.Feeds request handle taken fed mailbox' := by
  by_cases hSame : other = handle
  · subst hSame
    have hFound : (system.update other f).state.mailboxes[other]? = some (f mailbox) := by
      rw [System.update, List.getElem?_modify, h.found]
      simp
    exact ⟨_, hFound, hFrame.1.trans h.ids, hFrame.2.1.trans h.kinds,
      fun hHeld => h.registered (hFrame.2.2 hHeld), fun hHeld hRunning => (hOver hHeld hRunning).elim⟩
  · have hFound : (system.update other f).state.mailboxes[handle]? = some mailbox := by
      rw [System.update, List.getElem?_modify, h.found]
      simp [hSame]
    exact ⟨mailbox, hFound, h.ids, h.kinds, h.registered, h.content⟩

theorem deliveredTo_published (handle : Nat) (id : Bytes) (stream : Stream) (now : Timestamp)
    (draft : EventDraft) (system : System) :
    deliveredTo handle (system.publish id stream now draft).emitted = [] := rfl

/-- One step adds the responses received and the accepted events published. -/
theorem step (h : system.Feeds request handle taken fed mailbox) (native : Native)
    (hWired : system.Wired) (operation : Operation) :
    ∃ mailbox', (system.step native operation).state.Feeds request handle
      (taken ++ deliveredTo handle (system.step native operation).emitted)
      (fed ++ ((publishedEvents (system.step native operation).emitted).filter
        request.accepts).map .event) mailbox' := by
  have hStep := step_change native system operation
  generalize system.step native operation = outcome at hStep ⊢
  have hReclaim : System.Feeds { system with registry := system.registry.reclaim } request handle
      taken fed mailbox :=
    ⟨h.found, h.ids, h.kinds, by simpa using h.registered, h.content⟩
  have hQuiet : ∀ {other : System}, other.Feeds request handle taken fed mailbox →
      other.Feeds request handle (taken ++ deliveredTo handle [])
        (fed ++ ((publishedEvents []).filter request.accepts).map .event) mailbox := by
    intro other hOther
    simpa [deliveredTo, publishedEvents] using hOther
  cases hStep with
  | opened id hId hNew =>
    rw [deliveredTo_published, List.append_nil, publishedEvents_publish]
    exact hReclaim.publish hWired.reclaim _ _ _ _
  | unopened error => exact ⟨mailbox, hQuiet hReclaim⟩
  | refused operation error => exact ⟨mailbox, hQuiet h⟩
  | continued id now hOld hOpen hNext =>
    rw [deliveredTo_published, List.append_nil, publishedEvents_publish]
    exact h.publish hWired _ _ _ _
  | unsubscribed error => exact ⟨mailbox, hQuiet ⟨h.found, h.ids, h.kinds, h.live, h.content⟩⟩
  | subscribed sub hSub =>
    have hBound := (List.getElem?_eq_some_iff.mp h.found).1
    exact ⟨mailbox, hQuiet ⟨(List.getElem?_append_left hBound).trans h.found, h.ids, h.kinds,
      fun hHeld => List.mem_append_left _ (h.live hHeld), h.content⟩⟩
  | received other sub hBox =>
    rw [publishedEvents_delivered, List.filter_nil, List.map_nil, List.append_nil]
    exact h.receive hBox
  | nothing other => exact ⟨mailbox, hQuiet h⟩
  | cancelled other =>
    obtain ⟨mailbox', h'⟩ := h.update other
      (fun m => { m with subscription := m.subscription.cancel }) ⟨rfl, rfl, id⟩
      (fun _ hRunning => by cases hRunning)
    exact ⟨mailbox', by simpa [deliveredTo, publishedEvents, System.update] using h'⟩
  | released other =>
    obtain ⟨mailbox', h'⟩ := h.update other (fun m => { m with held := false })
      ⟨rfl, rfl, fun hHeld => by cases hHeld⟩ (fun hHeld => by cases hHeld)
    exact ⟨mailbox', by simpa [deliveredTo, publishedEvents, System.update] using h'⟩

end System.Feeds

end GrpcAsr.Media
