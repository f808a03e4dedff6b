import GrpcAsr.Media.Http

/-!
# Relaying a body

The entity is what reads have taken, what is queued and what no callback has taken, in this
order: a callback moves bytes from the last to the queue, a read from the queue to the first.
A read returns what it takes unless its pause of the transfer fails. The counter of buffered
bytes is the length of the queue, so a block is only refused while something is queued, and a
read that waits has not paused the transfer unless a resumption failed.
-/

namespace GrpcAsr.Media

set_option autoImplicit false

/-- The queued bytes no read has returned. -/
def HttpInput.unread (input : HttpInput) : Bytes := input.pending.flatten.drop input.offset

/-- The queue of a transfer of an entity of which reads have taken a part. -/
structure Queue (entity taken : Bytes) (w : HttpWorld) : Prop where
  content : entity = taken ++ w.input.unread ++ w.transfer.rest
  blocks : ∀ block ∈ w.input.pending, block ≠ []
  offset : match w.input.pending with
    | [] => w.input.offset = 0
    | front :: _ => w.input.offset < front.length
  count : w.input.bytes = w.input.unread.length
  bound : w.input.bytes ≤ HttpInput.budget
  done : w.input.finished = true → w.input.result = 0 → w.transfer.rest = []

/-- The input knows whether its transfer is paused. -/
def HttpWorld.InStep (w : HttpWorld) : Prop := w.transfer.paused = w.input.paused

section Queue

variable {input : HttpInput}

theorem unread_append (block : Bytes) (h : input.offset ≤ input.pending.flatten.length) :
    (input.pending ++ [block]).flatten.drop input.offset = input.unread ++ block := by
  rw [List.flatten_append, List.flatten_singleton, List.drop_append_of_le_length h, HttpInput.unread]

theorem offset_le (h : match input.pending with
    | [] => input.offset = 0
    | front :: _ => input.offset < front.length) : input.offset ≤ input.pending.flatten.length := by
  cases hPending : input.pending with
  | nil =>
    rw [hPending] at h
    exact Nat.le_of_eq h
  | cons front blocks =>
    rw [hPending] at h
    rw [List.flatten_cons, List.length_append]
    have hFront : input.offset < front.length := h
    omega

end Queue

theorem body_cases (input : HttpInput) (status : Int) (data : Bytes) :
    (∃ error, input.body status data = (.wrote 0, { input with error := error })) ∨
      (data.length ≤ HttpInput.budget ∧ sizeSub HttpInput.budget input.bytes < data.length ∧
        input.body status data = (.pause, { input with paused := true })) ∨
      (data ≠ [] ∧ data.length ≤ sizeSub HttpInput.budget input.bytes ∧
        input.body status data =
          (.wrote data.length,
            { input with pending := input.pending ++ [data], bytes := input.bytes + data.length })) := by
  rw [HttpInput.body]
  split
  · exact .inl ⟨input.error, rfl⟩
  · rename_i hData
    split
    · exact .inl ⟨_, rfl⟩
    · split
      · exact .inl ⟨_, rfl⟩
      · rename_i hSmall
        split
        · rename_i hFull
          exact .inr (.inl ⟨Nat.le_of_not_lt hSmall, hFull, rfl⟩)
        · rename_i hRoom
          refine .inr (.inr ⟨?_, Nat.le_of_not_lt hRoom, rfl⟩)
          rintro rfl
          exact hData rfl

theorem header_frame (input : HttpInput) (line : Bytes) :
    ∃ headerBytes error, input.header line = { input with headerBytes := headerBytes, error := error } := by
  rw [HttpInput.header]
  split
  · exact ⟨_, _, rfl⟩
  · dsimp only
    split
    · exact ⟨_, _, rfl⟩
    · exact ⟨_, _, rfl⟩

theorem sizeSub_of_le {left right : Nat} (h : right ≤ left) : sizeSub left right = left - right := if_pos h

namespace Queue

variable {entity taken : Bytes} {w : HttpWorld}

/-- A step that leaves the queue and the rest alone. -/
theorem frame (h : Queue entity taken w) {input : HttpInput} {transfer : Transfer}
    (hPending : input.pending = w.input.pending) (hOffset : input.offset = w.input.offset)
    (hBytes : input.bytes = w.input.bytes) (hRest : transfer.rest = w.transfer.rest)
    (hDone : input.finished = true → input.result = 0 → transfer.rest = []) :
    Queue entity taken ⟨input, transfer⟩ := by
  have hUnread : input.unread = w.input.unread := by
    rw [HttpInput.unread, HttpInput.unread, hPending, hOffset]
  constructor
  · show entity = taken ++ input.unread ++ transfer.rest
    rw [hUnread, hRest]
    exact h.content
  · show ∀ block ∈ input.pending, block ≠ []
    rw [hPending]
    exact h.blocks
  · show match input.pending with
      | [] => input.offset = 0
      | front :: _ => input.offset < front.length
    rw [hPending, hOffset]
    exact h.offset
  · show input.bytes = input.unread.length
    rw [hBytes, hUnread]
    exact h.count
  · show input.bytes ≤ HttpInput.budget
    rw [hBytes]
    exact h.bound
  · exact hDone

/-- The write callback: a block is queued whole, or nothing of it is. -/
theorem body (h : Queue entity taken w) (count : Nat) : Queue entity taken (w.callback (.body count)) := by
  have hRoom : sizeSub HttpInput.budget w.input.bytes = HttpInput.budget - w.input.bytes :=
    sizeSub_of_le h.bound
  rw [HttpWorld.callback]
  split
  · exact h
  · rcases body_cases w.input w.transfer.status (w.transfer.rest.take count) with
      ⟨error, hBody⟩ | ⟨-, -, hBody⟩ | ⟨hData, hFits, hBody⟩
    · rw [hBody]
      exact h.frame rfl rfl rfl rfl h.done
    · rw [hBody]
      exact h.frame rfl rfl rfl rfl h.done
    · rw [hBody]
      obtain ⟨later, hLater⟩ := List.take_prefix count w.transfer.rest
      generalize w.transfer.rest.take count = data at *
      have hRest : w.transfer.rest.drop data.length = later := by rw [← hLater, List.drop_left]
      have hUnread := unread_append data (offset_le h.offset)
      have hCount := h.count
      have hBound := h.bound
      rw [hRoom] at hFits
      constructor
      · show entity = taken ++ (w.input.pending ++ [data]).flatten.drop w.input.offset ++
          w.transfer.rest.drop data.length
        rw [hUnread, hRest, h.content, ← hLater]
        simp only [List.append_assoc]
      · show ∀ block ∈ w.input.pending ++ [data], block ≠ []
        rw [List.forall_mem_append, List.forall_mem_singleton]
        exact ⟨h.blocks, hData⟩
      · show match w.input.pending ++ [data] with
          | [] => w.input.offset = 0
          | front :: _ => w.input.offset < front.length
        have hOffset := h.offset
        cases hPending : w.input.pending with
        | nil =>
          rw [hPending] at hOffset
          have hZero : w.input.offset = 0 := hOffset
          show w.input.offset < data.length
          rw [hZero]
          exact List.length_pos_of_ne_nil hData
        | cons front blocks =>
          rw [hPending] at hOffset
          exact hOffset
      · show w.input.bytes + data.length =
          ((w.input.pending ++ [data]).flatten.drop w.input.offset).length
        rw [hUnread, List.length_append, hCount]
      · show w.input.bytes + data.length ≤ HttpInput.budget
        omega
      · intro hFinished hResult
        show w.transfer.rest.drop data.length = []
        rw [h.done hFinished hResult, List.drop_nil]

theorem callback (h : Queue entity taken w) (call : Callback) : Queue entity taken (w.callback call) := by
  cases call with
  | status code => exact h.frame rfl rfl rfl rfl h.done
  | header line =>
    obtain ⟨headerBytes, error, hHeader⟩ := header_frame w.input line
    rw [HttpWorld.callback, hHeader]
    exact h.frame rfl rfl rfl rfl h.done
  | socket permitted =>
    cases permitted with
    | true => exact h
    | false => exact h.frame rfl rfl rfl rfl h.done
  | body count => exact h.body count

theorem callbacks (h : Queue entity taken w) (calls : List Callback) :
    Queue entity taken (w.callbacks calls) := by
  induction calls generalizing w with
  | nil => exact h
  | cons call calls ih => exact ih (h.callback call)

theorem complete (h : Queue entity taken w) (messages : List CurlCode) :
    Queue entity taken (w.complete messages) := by
  induction messages generalizing w with
  | nil => exact h
  | cons code messages ih =>
    rw [HttpWorld.complete, List.foldl_cons, ← HttpWorld.complete]
    split
    · exact ih h
    · rename_i hEnds
      have hDone : code = 0 → w.transfer.rest = [] := fun hCode => by
        by_contra hRest
        exact hEnds ⟨hCode, hRest⟩
      exact ih (h.frame rfl rfl rfl rfl fun _ => hDone)

theorem offset_lt (h : Queue entity taken w) {front : Bytes} {blocks : List Bytes}
    (hPending : w.input.pending = front :: blocks) : w.input.offset < front.length := by
  have hFront := h.offset
  rw [hPending] at hFront
  exact hFront

/-- Bytes taken off the front block. -/
theorem consume (h : Queue entity taken w) {front : Bytes} {blocks : List Bytes} {count : Nat}
    (hPending : w.input.pending = front :: blocks) (hInside : w.input.offset + count ≤ front.length) :
    Queue entity (taken ++ (front.drop w.input.offset).take count)
      ⟨w.input.consume front blocks count, w.transfer⟩ := by
  have hUnread : w.input.unread = (front ++ blocks.flatten).drop w.input.offset := by
    rw [HttpInput.unread, hPending, List.flatten_cons]
  have hData : (front.drop w.input.offset).take count = w.input.unread.take count := by
    rw [hUnread, List.drop_append_of_le_length (by omega), List.take_append_of_le_length]
    rw [List.length_drop]
    omega
  have hLater : (w.input.consume front blocks count).unread = w.input.unread.drop count := by
    rw [HttpInput.unread, HttpInput.consume, hUnread, List.drop_drop]
    dsimp only
    split
    · rename_i hAll
      rw [hAll, List.drop_left, List.drop_zero]
    · rw [List.flatten_cons]
  have hEnough : count ≤ w.input.bytes := by
    rw [h.count, hUnread, List.length_drop, List.length_append]
    omega
  have hLaterBlocks : ∀ block ∈ blocks, block ≠ [] := fun block hBlock => by
    apply h.blocks
    rw [hPending]
    exact List.mem_cons_of_mem front hBlock
  constructor
  · show entity = taken ++ (front.drop w.input.offset).take count ++
      (w.input.consume front blocks count).unread ++ w.transfer.rest
    rw [hLater, hData, List.append_assoc taken, List.take_append_drop]
    exact h.content
  · show ∀ block ∈ if w.input.offset + count = front.length then blocks else front :: blocks, block ≠ []
    split
    · exact hLaterBlocks
    · rw [← hPending]
      exact h.blocks
  · show match if w.input.offset + count = front.length then blocks else front :: blocks with
      | [] => (if w.input.offset + count = front.length then 0 else w.input.offset + count) = 0
      | first :: _ => (if w.input.offset + count = front.length then 0 else w.input.offset + count) <
          first.length
    by_cases hAll : w.input.offset + count = front.length
    · simp only [if_pos hAll]
      cases blocks with
      | nil => exact trivial
      | cons first blocks => exact List.length_pos_of_ne_nil (hLaterBlocks first List.mem_cons_self)
    · simp only [if_neg hAll]
      omega
  · show sizeSub w.input.bytes count = (w.input.consume front blocks count).unread.length
    rw [hLater, List.length_drop, ← h.count, sizeSub_of_le hEnough]
  · show sizeSub w.input.bytes count ≤ HttpInput.budget
    have hBound := h.bound
    rw [sizeSub_of_le hEnough]
    omega
  · exact h.done

theorem start (entity : Bytes) : Queue entity [] (HttpWorld.start entity) :=
  ⟨rfl, List.forall_mem_nil _, rfl, rfl, Nat.zero_le _, nofun⟩

/-- A block is only refused while something is queued. -/
theorem held (h : Queue entity taken w) (hHeld : w.input.paused = true → w.input.pending ≠ [])
    (call : Callback) :
    (w.callback call).input.paused = true → (w.callback call).input.pending ≠ [] := by
  cases call with
  | status code => exact hHeld
  | header line =>
    obtain ⟨headerBytes, error, hHeader⟩ := header_frame w.input line
    rw [HttpWorld.callback, hHeader]
    exact hHeld
  | socket permitted =>
    cases permitted with
    | true => exact hHeld
    | false => exact hHeld
  | body count =>
    rw [HttpWorld.callback]
    split
    · exact hHeld
    · rcases body_cases w.input w.transfer.status (w.transfer.rest.take count) with
        ⟨error, hBody⟩ | ⟨hSmall, hFull, hBody⟩ | ⟨hData, hFits, hBody⟩
      · rw [hBody]
        exact hHeld
      · rw [hBody]
        intro _ hPending
        have hEmpty : w.input.pending = [] := hPending
        have hBytes : w.input.bytes = 0 := by
          rw [h.count, HttpInput.unread, hEmpty]
          simp
        rw [hBytes, sizeSub_of_le (Nat.zero_le _)] at hFull
        omega
      · rw [hBody]
        intro _
        exact List.append_ne_nil_of_right_ne_nil _ (List.cons_ne_nil _ _)

theorem held_callbacks (h : Queue entity taken w)
    (hHeld : w.input.paused = true → w.input.pending ≠ []) (calls : List Callback) :
    (w.callbacks calls).input.paused = true → (w.callbacks calls).input.pending ≠ [] := by
  induction calls generalizing w with
  | nil => exact hHeld
  | cons call calls ih => exact ih (h.callback call) (h.held hHeld call)

/-- What a turn of a read leaves behind. Bytes that are taken and not returned are lost, which
happens only where the pause of the transfer fails. -/
def Turned (entity taken : Bytes) (pauseOk : Bool) : ReadStep → Prop
  | .returned data next =>
    Queue entity (taken ++ data) next ∧
      (data = [] → next.input.finished = true ∧ next.input.result = 0 ∧
        200 ≤ next.transfer.status ∧ next.transfer.status < 300 ∧ taken = entity)
  | .failed _ next => ∃ lost, Queue entity (taken ++ lost) next ∧ (pauseOk = true → lost = [])
  | .waited next _ => Queue entity taken next
  | .again next => Queue entity taken next

/-- An exception of a turn that has taken nothing. -/
theorem fails (h : Queue entity taken w) (pauseOk : Bool) (failure : Failure) :
    Turned entity taken pauseOk (.failed failure w) :=
  ⟨[], by rwa [List.append_nil], fun _ => rfl⟩

theorem serve (h : Queue entity taken w) {capacity : Nat} (hCapacity : 0 < capacity)
    (turn : ReadTurn) {front : Bytes} {blocks : List Bytes}
    (hPending : w.input.pending = front :: blocks) :
    Turned entity taken turn.pauseOk (HttpWorld.serve capacity turn w front blocks) := by
  have hOffset := h.offset_lt hPending
  have hLeft : sizeSub front.length w.input.offset = front.length - w.input.offset := sizeSub_of_le hOffset.le
  generalize hCount : min capacity (front.length - w.input.offset) = count
  have hInside : w.input.offset + count ≤ front.length := by omega
  have hNonempty : (front.drop w.input.offset).take count ≠ [] := by
    apply List.ne_nil_of_length_pos
    rw [List.length_take, List.length_drop]
    omega
  have hQueue := h.consume hPending hInside
  rw [HttpWorld.serve, hLeft, hCount]
  dsimp only
  split
  · split
    · exact ⟨hQueue.frame rfl rfl rfl rfl h.done, fun hEmpty => absurd hEmpty hNonempty⟩
    · rename_i hFails
      exact ⟨_, hQueue, fun hPause => absurd hPause hFails⟩
  · exact ⟨hQueue, fun hEmpty => absurd hEmpty hNonempty⟩

theorem finish (h : Queue entity taken w) (hPending : w.input.pending = [])
    (hFinished : w.input.finished = true) (pauseOk : Bool) :
    Turned entity taken pauseOk w.finish := by
  rw [HttpWorld.finish]
  split
  · split
    · exact h.fails pauseOk _
    · exact h.fails pauseOk _
  · rename_i hResult
    have hOk : w.input.result = 0 := not_not.mp hResult
    split
    · exact h.fails pauseOk _
    · rename_i hStatus
      have hRange : 200 ≤ w.transfer.status ∧ w.transfer.status < 300 := by simpa using hStatus
      have hAll : taken = entity := by
        rw [h.content, HttpInput.unread, hPending, h.done hFinished hOk]
        simp
      refine ⟨?_, fun _ => ⟨hFinished, hOk, hRange.1, hRange.2, hAll⟩⟩
      rw [List.append_nil]
      exact h

theorem perform (h : Queue entity taken w) (turn : ReadTurn) :
    Turned entity taken turn.pauseOk (HttpWorld.perform turn w) := by
  have hCalls := h.callbacks turn.performed
  rw [HttpWorld.perform]
  dsimp only
  split
  · exact hCalls.fails _ _
  · split
    · exact hCalls.fails _ _
    · split
      · exact hCalls.complete turn.messages
      · exact hCalls.complete turn.messages

theorem readTurn (h : Queue entity taken w) {capacity : Nat} (hCapacity : 0 < capacity)
    (turn : ReadTurn) :
    Turned entity taken turn.pauseOk (HttpWorld.readTurn capacity turn w) := by
  rw [HttpWorld.readTurn]
  split
  · exact h.fails _ _
  · split
    · rename_i front blocks hPending
      exact h.serve hCapacity turn hPending
    · rename_i hPending
      split
      · rename_i hFinished
        exact h.finish hPending hFinished _
      · split
        · dsimp only
          split
          · have hOpen : Queue entity taken
                ⟨{ w.input with paused := false }, { w.transfer with paused := false }⟩ :=
              h.frame rfl rfl rfl rfl h.done
            have hResumed := hOpen.callbacks turn.resumed
            split
            · exact hResumed.fails _ _
            · exact hResumed.perform turn
          · have hFailed : Queue entity taken ⟨{ w.input with paused := false }, w.transfer⟩ :=
              h.frame rfl rfl rfl rfl h.done
            exact hFailed.fails _ _
        · exact h.perform turn

end Queue

/-! ## Whether the transfer is paused -/

namespace HttpWorld.InStep

variable {entity taken : Bytes} {w : HttpWorld}

theorem callback (h : w.InStep) (call : Callback) : (w.callback call).InStep := by
  cases call with
  | status code => exact h
  | header line =>
    obtain ⟨headerBytes, error, hHeader⟩ := header_frame w.input line
    rw [HttpWorld.callback, hHeader]
    exact h
  | socket permitted =>
    cases permitted with
    | true => exact h
    | false => exact h
  | body count =>
    rw [HttpWorld.callback]
    split
    · exact h
    · rcases body_cases w.input w.transfer.status (w.transfer.rest.take count) with
        ⟨error, hBody⟩ | ⟨-, -, hBody⟩ | ⟨-, -, hBody⟩
      · rw [hBody]
        exact h
      · rw [hBody]
        rfl
      · rw [hBody]
        exact h

theorem callbacks (h : w.InStep) (calls : List Callback) : (w.callbacks calls).InStep := by
  induction calls generalizing w with
  | nil => exact h
  | cons call calls ih => exact ih (h.callback call)

theorem complete_flags (w : HttpWorld) (messages : List CurlCode) :
    (w.complete messages).input.paused = w.input.paused ∧
      (w.complete messages).transfer.paused = w.transfer.paused ∧
      (w.complete messages).input.pending = w.input.pending := by
  induction messages generalizing w with
  | nil => exact ⟨rfl, rfl, rfl⟩
  | cons code messages ih =>
    rw [HttpWorld.complete, List.foldl_cons, ← HttpWorld.complete]
    split
    · exact ih w
    · exact ih _

theorem complete (h : w.InStep) (messages : List CurlCode) : (w.complete messages).InStep := by
  obtain ⟨hInput, hTransfer, -⟩ := complete_flags w messages
  rw [HttpWorld.InStep, hInput, hTransfer]
  exact h

/-- What a turn leaves in step; one that waits has left the transfer running. -/
def Turned : ReadStep → Prop
  | .returned _ next => next.InStep
  | .failed _ next => next.InStep
  | .waited next _ => next.InStep ∧ next.transfer.paused = false
  | .again next => next.InStep

theorem serve (h : w.InStep) (capacity : Nat) (turn : ReadTurn) (front : Bytes)
    (blocks : List Bytes) : Turned (HttpWorld.serve capacity turn w front blocks) := by
  rw [HttpWorld.serve]
  dsimp only
  split
  · split
    · rfl
    · exact h
  · exact h

theorem finish (h : w.InStep) : Turned w.finish := by
  rw [HttpWorld.finish]
  split
  · split
    · exact h
    · exact h
  · split
    · exact h
    · exact h

theorem perform (h : w.InStep) (hQueue : Queue entity taken w) (turn : ReadTurn)
    (hHeld : w.input.paused = true → w.input.pending ≠ []) :
    Turned (HttpWorld.perform turn w) := by
  have hCalls := h.callbacks turn.performed
  have hStill := hQueue.held_callbacks hHeld turn.performed
  have hComplete := hCalls.complete turn.messages
  obtain ⟨hPaused, -, hPending⟩ := complete_flags (w.callbacks turn.performed) turn.messages
  rw [HttpWorld.perform]
  dsimp only
  split
  · exact hCalls
  · split
    · exact hCalls
    · split
      · exact hComplete
      · rename_i hWaits
        refine ⟨hComplete, ?_⟩
        rw [hComplete, hPaused, Bool.eq_false_iff]
        intro hRefused
        apply hStill hRefused
        rw [Bool.or_eq_true, not_or, Bool.not_eq_true', Bool.not_eq_false, List.isEmpty_iff,
          hPending] at hWaits
        exact hWaits.1

theorem readTurn (h : w.InStep) (hQueue : Queue entity taken w) (capacity : Nat) {turn : ReadTurn}
    (hResume : turn.resumeOk = true) : Turned (HttpWorld.readTurn capacity turn w) := by
  rw [HttpWorld.readTurn, hResume]
  split
  · exact h
  · split
    · exact h.serve capacity turn _ _
    · split
      · exact h.finish
      · split
        · dsimp only
          have hOpen : Queue entity taken
              ⟨{ w.input with paused := false }, { w.transfer with paused := false }⟩ :=
            hQueue.frame rfl rfl rfl rfl hQueue.done
          have hResumed := callbacks
            (w := ⟨{ w.input with paused := false }, { w.transfer with paused := false }⟩) rfl
            turn.resumed
          rw [if_pos rfl]
          split
          · exact hResumed
          · exact hResumed.perform (hOpen.callbacks turn.resumed) turn
              (hOpen.held_callbacks nofun turn.resumed)
        · rename_i hOpen
          exact h.perform hQueue turn fun hPaused => absurd hPaused hOpen

end HttpWorld.InStep

/-! ## Whole runs -/

/-- The bytes that reads returned. -/
def returnedBytes (events : List HttpEvent) : Bytes :=
  events.flatMap fun
    | .returned data _ => data
    | _ => []

@[simp] theorem returnedBytes_nil : returnedBytes [] = [] := rfl

theorem returnedBytes_append (front back : List HttpEvent) :
    returnedBytes (front ++ back) = returnedBytes front ++ returnedBytes back := List.flatMap_append

def HttpAction.turns : HttpAction → List ReadTurn
  | .callback _ => []
  | .read _ turns => turns

/-- No pause of the transfer fails. -/
def HttpAction.Pauses (action : HttpAction) : Prop := ∀ turn ∈ action.turns, turn.pauseOk = true

/-- No resumption of the transfer fails. -/
def HttpAction.Resumes (action : HttpAction) : Prop := ∀ turn ∈ action.turns, turn.resumeOk = true

/-- A read returns nothing only at the end of a transfer that went well, after the whole entity. -/
def Ended (entity taken : Bytes) (events : List HttpEvent) : Prop :=
  ∀ before w after, events = before ++ .returned [] w :: after →
    w.input.finished = true ∧ w.input.result = 0 ∧ 200 ≤ w.transfer.status ∧ w.transfer.status < 300 ∧
      taken ++ returnedBytes before = entity

theorem Ended.nil (entity taken : Bytes) : Ended entity taken [] := by
  intro before w after hSplit
  cases before <;> cases hSplit

theorem Ended.append {entity taken : Bytes} {front back : List HttpEvent}
    (hFront : Ended entity taken front) (hBack : Ended entity (taken ++ returnedBytes front) back) :
    Ended entity taken (front ++ back) := by
  intro before w after hSplit
  rcases List.append_eq_append_iff.mp hSplit with ⟨more, rfl, hMore⟩ | ⟨more, rfl, hMore⟩
  · rw [returnedBytes_append, ← List.append_assoc]
    exact hBack more w after hMore
  · cases more with
    | nil =>
      rw [List.append_nil] at hBack
      have hFirst := hBack [] w after hMore.symm
      rw [returnedBytes_nil, List.append_nil] at hFirst
      exact hFirst
    | cons event more =>
      obtain ⟨rfl, rfl⟩ := List.cons.inj hMore
      exact hFront before w more rfl

/-- One event, which returns no empty data unless the entity was taken. -/
theorem Ended.single {entity taken : Bytes} {event : HttpEvent}
    (hEnded : ∀ w, event = .returned [] w → w.input.finished = true ∧ w.input.result = 0 ∧
      200 ≤ w.transfer.status ∧ w.transfer.status < 300 ∧ taken = entity) :
    Ended entity taken [event] := by
  intro before w after hSplit
  cases before with
  | nil =>
    rw [returnedBytes_nil, List.append_nil]
    exact hEnded w (List.cons.inj hSplit).1
  | cons first before =>
    have hNone := (List.cons.inj hSplit).2
    cases before <;> cases hNone

theorem Ended.other {entity taken : Bytes} {event : HttpEvent}
    (hOther : ∀ data w, event ≠ .returned data w) : Ended entity taken [event] :=
  .single fun w hEvent => absurd hEvent (hOther [] w)

theorem Ended.failed (entity taken : Bytes) (failure : Failure) :
    Ended entity taken [.failed failure] := .other fun _ _ hSame => HttpEvent.noConfusion hSame

theorem Ended.waited (entity taken : Bytes) (w : HttpWorld) :
    Ended entity taken [.waited w] := .other fun _ _ hSame => HttpEvent.noConfusion hSame

namespace HttpWorld

variable {capacity : Nat} {turn : ReadTurn} {turns : List ReadTurn} {w next : HttpWorld}

theorem readLoop_returned {data : Bytes} (h : readTurn capacity turn w = .returned data next) :
    readLoop capacity (turn :: turns) w = ([.returned data next], next) := by
  rw [readLoop, h]

theorem readLoop_failed {failure : Failure} (h : readTurn capacity turn w = .failed failure next) :
    readLoop capacity (turn :: turns) w = ([.failed failure], next) := by
  rw [readLoop, h]

theorem readLoop_again (h : readTurn capacity turn w = .again next) :
    readLoop capacity (turn :: turns) w = readLoop capacity turns next := by
  rw [readLoop, h]

theorem readLoop_waited (h : readTurn capacity turn w = .waited next true) :
    readLoop capacity (turn :: turns) w =
      ([.waited next] ++ (readLoop capacity turns next).1, (readLoop capacity turns next).2) := by
  rw [readLoop, h]
  rfl

theorem readLoop_gaveUp (h : readTurn capacity turn w = .waited next false) :
    readLoop capacity (turn :: turns) w =
      ([.waited next] ++ [.failed ⟨.unavailable, "HTTP wait failed"⟩], next) := by
  rw [readLoop, h]
  rfl

end HttpWorld

/-- A run that has taken bytes off the queue: all that it returned, and more only where a pause
of the transfer failed. -/
structure Takes (entity taken : Bytes) (pauses : Prop) (events : List HttpEvent) (w : HttpWorld) :
    Prop where
  queue : ∃ lost, Queue entity (taken ++ returnedBytes events ++ lost) w ∧ (pauses → lost = [])
  ended : pauses → Ended entity taken events

namespace Queue

variable {entity taken : Bytes} {w : HttpWorld}

/-- Events that return nothing. -/
theorem idle (h : Queue entity taken w) (pauses : Prop) {events : List HttpEvent}
    (hNothing : returnedBytes events = []) (hEnded : Ended entity taken events) :
    Takes entity taken pauses events w := by
  refine ⟨⟨[], ?_, fun _ => rfl⟩, fun _ => hEnded⟩
  rw [hNothing, List.append_nil, List.append_nil]
  exact h

theorem readLoop (h : Queue entity taken w) {capacity : Nat} (hCapacity : 0 < capacity)
    (turns : List ReadTurn) :
    Takes entity taken (∀ turn ∈ turns, turn.pauseOk = true)
      (HttpWorld.readLoop capacity turns w).1 (HttpWorld.readLoop capacity turns w).2 := by
  induction turns generalizing w with
  | nil => exact h.idle _ rfl (Ended.nil entity taken)
  | cons turn turns ih =>
    have hStep := h.readTurn hCapacity turn
    cases hResult : HttpWorld.readTurn capacity turn w with
    | returned data next =>
      rw [hResult] at hStep
      rw [HttpWorld.readLoop_returned hResult]
      have hData : returnedBytes [.returned data next] = data := List.append_nil data
      refine ⟨⟨[], ?_, fun _ => rfl⟩, fun _ => ?_⟩
      · rw [hData, List.append_nil]
        exact hStep.1
      · apply Ended.single
        rintro _ ⟨⟩
        exact hStep.2 rfl
    | failed failure next =>
      rw [hResult] at hStep
      obtain ⟨lost, hQueue, hLost⟩ := hStep
      rw [HttpWorld.readLoop_failed hResult]
      refine ⟨⟨lost, ?_, fun hPauses => hLost (hPauses turn List.mem_cons_self)⟩, fun _ => ?_⟩
      · rw [show returnedBytes [.failed failure] = [] from rfl, List.append_nil]
        exact hQueue
      · exact Ended.failed entity taken failure
    | again next =>
      rw [hResult] at hStep
      rw [HttpWorld.readLoop_again hResult]
      obtain ⟨⟨lost, hQueue, hLost⟩, hEnded⟩ := ih hStep
      exact ⟨⟨lost, hQueue, fun hPauses => hLost (List.forall_mem_cons.mp hPauses).2⟩,
        fun hPauses => hEnded (List.forall_mem_cons.mp hPauses).2⟩
    | waited next ok =>
      rw [hResult] at hStep
      have hWaited := Ended.waited entity taken next
      have hNothing : taken ++ returnedBytes [.waited next] = taken := List.append_nil taken
      cases ok with
      | true =>
        rw [HttpWorld.readLoop_waited hResult]
        obtain ⟨⟨lost, hQueue, hLost⟩, hEnded⟩ := ih hStep
        refine ⟨⟨lost, ?_, fun hPauses => hLost (List.forall_mem_cons.mp hPauses).2⟩,
          fun hPauses => hWaited.append ?_⟩
        · rw [returnedBytes_append, ← List.append_assoc, hNothing]
          exact hQueue
        · rw [hNothing]
          exact hEnded (List.forall_mem_cons.mp hPauses).2
      | false =>
        rw [HttpWorld.readLoop_gaveUp hResult]
        exact Queue.idle hStep _ rfl (hWaited.append (Ended.failed entity _ _))

theorem act (h : Queue entity taken w) (action : HttpAction) :
    Takes entity taken action.Pauses (w.act action).1 (w.act action).2 := by
  cases action with
  | callback call => exact (h.callback call).idle _ rfl (Ended.nil entity taken)
  | read capacity turns =>
    rw [HttpWorld.act]
    split
    · exact h.idle _ rfl (.other fun _ _ hSame => HttpEvent.noConfusion hSame)
    · rename_i hCapacity
      exact h.readLoop (Nat.pos_of_ne_zero hCapacity) turns

/-- Whatever happens, the queue stays what its counter says. -/
theorem run (h : Queue entity taken w) (actions : List HttpAction) :
    ∃ now, Queue entity now (w.run actions).2 := by
  induction actions generalizing w taken with
  | nil => exact ⟨taken, h⟩
  | cons action actions ih =>
    obtain ⟨lost, hQueue, -⟩ := (h.act action).queue
    exact ih hQueue

/-- While no pause fails, the reads return what they take. -/
theorem run_pauses (h : Queue entity taken w) {actions : List HttpAction}
    (hActions : ∀ action ∈ actions, action.Pauses) :
    Queue entity (taken ++ returnedBytes (w.run actions).1) (w.run actions).2 ∧
      Ended entity taken (w.run actions).1 := by
  induction actions generalizing w taken with
  | nil =>
    rw [HttpWorld.run, returnedBytes_nil, List.append_nil]
    exact ⟨h, Ended.nil entity taken⟩
  | cons action actions ih =>
    obtain ⟨hAction, hRest⟩ := List.forall_mem_cons.mp hActions
    obtain ⟨⟨lost, hQueue, hLost⟩, hEnded⟩ := h.act action
    rw [hLost hAction, List.append_nil] at hQueue
    obtain ⟨hLater, hLaterEnded⟩ := ih hQueue hRest
    rw [HttpWorld.run]
    refine ⟨?_, (hEnded hAction).append hLaterEnded⟩
    rw [returnedBytes_append, ← List.append_assoc]
    exact hLater

end Queue

namespace HttpWorld.InStep

variable {entity taken : Bytes} {w : HttpWorld}

theorem readLoop (h : w.InStep) (hQueue : Queue entity taken w) {capacity : Nat}
    (hCapacity : 0 < capacity) {turns : List ReadTurn}
    (hTurns : ∀ turn ∈ turns, turn.resumeOk = true) :
    (HttpWorld.readLoop capacity turns w).2.InStep ∧
      ∀ v, .waited v ∈ (HttpWorld.readLoop capacity turns w).1 → v.transfer.paused = false := by
  induction turns generalizing w with
  | nil => exact ⟨h, fun v hWaited => absurd hWaited List.not_mem_nil⟩
  | cons turn turns ih =>
    obtain ⟨hTurn, hRest⟩ := List.forall_mem_cons.mp hTurns
    have hStep := h.readTurn hQueue capacity hTurn
    have hTaken := hQueue.readTurn hCapacity turn
    cases hResult : HttpWorld.readTurn capacity turn w with
    | returned data next =>
      rw [hResult] at hStep
      rw [HttpWorld.readLoop_returned hResult]
      refine ⟨hStep, fun v hWaited => ?_⟩
      cases List.mem_singleton.mp hWaited
    | failed failure next =>
      rw [hResult] at hStep
      rw [HttpWorld.readLoop_failed hResult]
      refine ⟨hStep, fun v hWaited => ?_⟩
      cases List.mem_singleton.mp hWaited
    | again next =>
      rw [hResult] at hStep hTaken
      rw [HttpWorld.readLoop_again hResult]
      exact ih hStep hTaken hRest
    | waited next ok =>
      rw [hResult] at hStep hTaken
      cases ok with
      | true =>
        rw [HttpWorld.readLoop_waited hResult]
        obtain ⟨hLater, hWaits⟩ := ih hStep.1 hTaken hRest
        refine ⟨hLater, fun v hWaited => ?_⟩
        rcases List.mem_append.mp hWaited with hFirst | hOther
        · obtain rfl := HttpEvent.waited.inj (List.mem_singleton.mp hFirst)
          exact hStep.2
        · exact hWaits v hOther
      | false =>
        rw [HttpWorld.readLoop_gaveUp hResult]
        refine ⟨hStep.1, fun v hWaited => ?_⟩
        rcases List.mem_append.mp hWaited with hFirst | hOther
        · obtain rfl := HttpEvent.waited.inj (List.mem_singleton.mp hFirst)
          exact hStep.2
        · cases List.mem_singleton.mp hOther

/-- While no resumption fails, no read waits for a paused transfer. -/
theorem run (h : w.InStep) (hQueue : Queue entity taken w) {actions : List HttpAction}
    (hActions : ∀ action ∈ actions, action.Resumes) :
    ∀ v, .waited v ∈ (w.run actions).1 → v.transfer.paused = false := by
  induction actions generalizing w taken with
  | nil => exact fun v hWaited => absurd hWaited List.not_mem_nil
  | cons action actions ih =>
    obtain ⟨hAction, hRest⟩ := List.forall_mem_cons.mp hActions
    obtain ⟨lost, hNext, -⟩ := (hQueue.act action).queue
    have hStep : (w.act action).2.InStep ∧
        ∀ v, .waited v ∈ (w.act action).1 → v.transfer.paused = false := by
      cases action with
      | callback call => exact ⟨h.callback call, fun v hWaited => absurd hWaited List.not_mem_nil⟩
      | read capacity turns =>
        rw [HttpWorld.act]
        split
        · refine ⟨h, fun v hWaited => ?_⟩
          cases List.mem_singleton.mp hWaited
        · rename_i hCapacity
          exact h.readLoop hQueue (Nat.pos_of_ne_zero hCapacity) hAction
    intro v hWaited
    rcases List.mem_append.mp hWaited with hFirst | hLater
    · exact hStep.2 v hFirst
    · exact ih hStep.1 hNext hRest v hLater

end HttpWorld.InStep

/-- The queue is counted within its budget in every run. While no pause of the transfer fails,
the reads return a front of the entity, and nothing only after all of it; while no resumption
fails, no read waits for a paused transfer. -/
theorem body_relayed (entity : Bytes) (actions : List HttpAction) :
    ((HttpWorld.start entity).run actions).2.input.bytes =
        ((HttpWorld.start entity).run actions).2.input.unread.length ∧
      ((HttpWorld.start entity).run actions).2.input.bytes ≤ 65536 ∧
      ((∀ action ∈ actions, action.Pauses) →
        returnedBytes ((HttpWorld.start entity).run actions).1 <+: entity ∧
        ∀ before w after, ((HttpWorld.start entity).run actions).1 = before ++ .returned [] w :: after →
          w.input.finished = true ∧ w.input.result = 0 ∧ 200 ≤ w.transfer.status ∧
            w.transfer.status < 300 ∧ returnedBytes before = entity) ∧
      ((∀ action ∈ actions, action.Resumes) →
        ∀ w, .waited w ∈ ((HttpWorld.start entity).run actions).1 → w.transfer.paused = false) := by
  obtain ⟨now, hQueue⟩ := (Queue.start entity).run actions
  refine ⟨hQueue.count, hQueue.bound, fun hPauses => ?_, fun hResumes => ?_⟩
  · obtain ⟨hTaken, hEnded⟩ := (Queue.start entity).run_pauses hPauses
    have hContent := hTaken.content
    rw [List.nil_append, List.append_assoc] at hContent
    exact ⟨⟨_, hContent.symm⟩, hEnded⟩
  · exact HttpWorld.InStep.run (w := HttpWorld.start entity) rfl (Queue.start entity) hResumes

/-- A turn that performs what is given. -/
def performing (performed : List Callback) (messages : List CurlCode) : ReadTurn where
  cancelled := false
  pauseOk := true
  resumeOk := true
  resumed := []
  cancelledResumed := false
  performOk := true
  performed := performed
  cancelledPerformed := false
  messages := messages
  pollOk := true

theorem body_relayed_short :
    returnedBytes ((HttpWorld.start [1, 2]).run
        [.read 1 [performing [.status 200, .body 2] [], performing [] []]]).1 <+: [1, 2] ∧
      ∀ w, .waited w ∈ ((HttpWorld.start [1, 2]).run
        [.read 1 [performing [.status 200, .body 2] [], performing [] []]]).1 →
          w.transfer.paused = false := by
  obtain ⟨-, -, hPaused, hResumed⟩ := body_relayed [1, 2]
    [.read 1 [performing [.status 200, .body 2] [], performing [] []]]
  constructor
  · refine (hPaused ?_).1
    rw [List.forall_mem_singleton]
    intro turn hTurn
    rcases List.mem_pair.mp hTurn with rfl | rfl
    · rfl
    · rfl
  · apply hResumed
    rw [List.forall_mem_singleton]
    intro turn hTurn
    rcases List.mem_pair.mp hTurn with rfl | rfl
    · rfl
    · rfl

/-- A read whose pause of the transfer fails drops the bytes it took, and after a resumption that
failed a read waits for a paused transfer. -/
theorem failed_pause_drops :
    (¬ ∀ (entity : Bytes) (actions : List HttpAction),
        returnedBytes ((HttpWorld.start entity).run actions).1 <+: entity) ∧
      ¬ ∀ (entity : Bytes) (actions : List HttpAction),
        ∀ w, .waited w ∈ ((HttpWorld.start entity).run actions).1 → w.transfer.paused = false := by
  constructor
  · intro h
    have hDropped := h [1, 2]
      [.read 1 [performing [.status 200, .body 2] [], { performing [] [] with pauseOk := false }],
        .read 1 [performing [] []]]
    revert hDropped
    decide
  · intro h
    have hWaits := h [1, 2]
      [.read 1 [performing [.status 200, .body 1] [], performing [] []],
        .read 1 [{ performing [] [] with resumeOk := false }], .read 1 [performing [] []]] _
      (List.mem_cons_of_mem _ (List.mem_cons_of_mem _ List.mem_cons_self))
    revert hWaits
    decide

end GrpcAsr.Media
