import GrpcAsr.Media.Lifecycle
import GrpcAsr.Media.Incarnations
import GrpcAsr.Media.Service
import GrpcAsr.Library.History

/-!
# What one ingress call does to its stream

Between its opening and its terminal event a call owns its stream: the events published
for the incarnation are those it published itself. The contract of the registry says so;
under it the local counters and the digest always agree with the published source
events, and as long as nothing was thrown the consumed messages are well formed.
-/

namespace GrpcAsr.Media

set_option autoImplicit false

open Interaction

/-- The incarnation a call has opened and the events published for it, if it has. -/
abbrev Stake := Option ((Bytes × Bytes) × List StreamEvent)

/-- A call may open one stream. To that stream, and until it has closed it, it can always
publish chunks and the terminal event; derived events may be refused. -/
def RegistryRequest.promise (stake : Stake) (Q : Reply → Stake → Prop) : RegistryRequest → Prop
  | .openStream .. => stake = none ∧ (∀ error : Failure, Q (.error error) none) ∧
      ∀ event : StreamEvent, event.opened?.isSome = true → event.cursor.streamId ≠ [] →
        Q (.ok event) (some (event.cursor.home, [event]))
  | .source id chunk => ∃ home own, stake = some (home, own) ∧ home.1 = id ∧ Unclosed own ∧
      ∀ event : StreamEvent, event.payload = some (.source chunk) →
        Q (.ok event) (some (home, own ++ [event]))
  | .derived id _ _ => ∃ home own, stake = some (home, own) ∧ home.1 = id ∧ Unclosed own ∧
      (∀ error : Failure, error.code ≠ .ok → Q (.error error) stake) ∧
      ∀ event : StreamEvent, event.payload.any Payload.isDerived = true →
        Q (.ok event) (some (home, own ++ [event]))
  | .close id closed => ∃ home own, stake = some (home, own) ∧ home.1 = id ∧ Unclosed own ∧
      ∀ event : StreamEvent, event.payload = some (.closed closed) →
        Q (.ok event) (some (home, own ++ [event]))

def registryContract : Contract RegistryRequest RegistryRequest.Answer Stake where
  holds request stake Q := request.promise stake Q
  mono := by
    intro request stake P Q hImp h
    cases request with
    | openStream =>
      exact ⟨h.1, fun error => hImp _ _ (h.2.1 error), fun event hEvent hId => hImp _ _ (h.2.2 event hEvent hId)⟩
    | source id chunk =>
      obtain ⟨home, own, hStake, hId, hOpen, hQ⟩ := h
      exact ⟨home, own, hStake, hId, hOpen, fun event hEvent => hImp _ _ (hQ event hEvent)⟩
    | derived id draft libraryVersion =>
      obtain ⟨home, own, hStake, hId, hOpen, hError, hQ⟩ := h
      exact ⟨home, own, hStake, hId, hOpen, fun error hCode => hImp _ _ (hError error hCode),
        fun event hEvent => hImp _ _ (hQ event hEvent)⟩
    | close id closed =>
      obtain ⟨home, own, hStake, hId, hOpen, hQ⟩ := h
      exact ⟨home, own, hStake, hId, hOpen, fun event hEvent => hImp _ _ (hQ event hEvent)⟩

/-- A failure never has the OK code. -/
def Reported {α : Type} (x : Except Failure α) : Prop :=
  ∀ error, x = .error error → error.code ≠ .ok

namespace Reported

theorem ok {α : Type} (a : α) : Reported (.ok a) := fun _ h => nomatch h

theorem error {α : Type} {failure : Failure} (h : failure.code ≠ .ok) :
    Reported (.error failure : Except Failure α) := by
  rintro _ ⟨⟩
  exact h

theorem require {condition : Bool} {code : StatusCode} {message : String} (h : code ≠ .ok) :
    Reported (require condition code message) := by
  cases condition with
  | true => exact .ok ()
  | false => exact .error h

theorem bind {α β : Type} {x : Except Failure α} {f : α → Except Failure β} (h : Reported x)
    (hf : ∀ a, Reported (f a)) : Reported (x >>= f) := by
  cases x with
  | error failure => exact .error (h failure rfl)
  | ok a => exact hf a

end Reported

def sourceChunks (own : List StreamEvent) : List SourceChunk := own.filterMap StreamEvent.source?

def totalBytes (chunks : List SourceChunk) : Nat := (chunks.map fun chunk => chunk.data.length).sum

def contents (chunks : List SourceChunk) : Bytes := chunks.flatMap SourceChunk.data

/-- The part of a call's variables that accounts for its input. -/
structure Core where
  count : Nat
  bytes : Nat
  digest : Bytes
  explicitFinish : Bool
  finish : FinishStream
  consumed : List IngestRequest

variable {P : Type}

def Ingress.core (s : Ingress P) : Core :=
  ⟨s.count, s.bytes, s.digest, s.explicitFinish, s.finish, s.consumed⟩

/-- The counters and the digest are those of the source events published so far. -/
def Core.Counts (core : Core) (chunks : List SourceChunk) : Prop :=
  core.count = chunks.length ∧ core.bytes = totalBytes chunks ∧ core.digest = contents chunks

def Core.heard (core : Core) : Option IngestRequest → Core
  | none => core
  | some message => { core with consumed := core.consumed ++ [message] }

def Core.counted (core : Core) (data : Bytes) : Core :=
  { core with
    digest := core.digest ++ data
    count := core.count + 1
    bytes := core.bytes + data.length }

def Core.finished (core : Core) (finish : FinishStream) : Core :=
  { core with finish := finish, explicitFinish := true }

/-- The finish message was read and its counts are those of the chunks. -/
def Core.Settled (core : Core) : Prop :=
  core.explicitFinish = true ∧ core.finish.chunkCount = core.count ∧
    core.finish.byteCount = core.bytes

/-- A condition on the core that every well-formed message keeps until the input ends. -/
structure Core.Follows (Y : Core → Prop) : Prop where
  chunk : ∀ {core chunk}, Y core → core.explicitFinish = false →
    chunk.chunkNumber = core.count + 1 → chunk.byteOffset = core.bytes →
    Y ((core.heard (some (.chunk chunk))).counted chunk.data)
  finish : ∀ {core} finish, Y core → core.explicitFinish = false →
    Y ((core.heard (some (.finish finish))).finished finish)

/-- Counters of a call, with nothing else said. -/
def Ingress.counting (count bytes : Nat) : Ingress Unit :=
  ⟨[], count, bytes, [], false, default, [], 0, none, [], 0, []⟩

/-- Why the service rejects a message read after the opening one, if it does. -/
def verdict (config : ServiceConfig) (count bytes : Nat) : IngestRequest → Option Failure
  | .finish _ => none
  | .chunk chunk =>
    match Ingest.checkChunk config (.counting count bytes) chunk with
    | .ok _ => none
    | .error failure => some failure
  | _ => some ⟨.invalidArgument, "expected a source chunk or finish"⟩

/-- `Y` is kept by every message the service accepts. `Z` says what an exception leaves: an
input in order, or one more message, which is rejected with that exception. -/
structure Core.Admits (config : ServiceConfig) (Y : Core → Prop) (Z : Exception → Core → Prop) :
    Prop where
  chunk : ∀ {core chunk}, Y core → core.explicitFinish = false →
    verdict config core.count core.bytes (.chunk chunk) = none →
    Y ((core.heard (some (.chunk chunk))).counted chunk.data)
  finish : ∀ {core} finish, Y core → core.explicitFinish = false →
    Y ((core.heard (some (.finish finish))).finished finish)
  interrupted : ∀ {core} error, Y core → Z error core
  rejected : ∀ {core message failure}, Y core → core.explicitFinish = false →
    verdict config core.count core.bytes message = some failure →
    Z (.failure failure) (core.heard (some message))

theorem Core.Counts.snoc {core : Core} {chunks : List SourceChunk} (h : core.Counts chunks)
    (chunk : SourceChunk) : (core.counted chunk.data).Counts (chunks ++ [chunk]) := by
  obtain ⟨hCount, hBytes, hDigest⟩ := h
  simp [Core.Counts, Core.counted, hCount, hBytes, hDigest, totalBytes, contents]

/-- The call has set its id to that of an open stream. -/
def Ingress.Names (s : Ingress P) (home : Bytes × Bytes) : Prop := home.1 = s.id ∧ s.id ≠ []

/-- The call owns an unclosed stream and has accounted for it. -/
def Owns (Y : Core → Prop) (s : Ingress P) (stake : Stake) : Prop :=
  Y s.core ∧ ∃ home own, stake = some (home, own) ∧ s.Names home ∧ Unclosed own ∧
    s.core.Counts (sourceChunks own)

/-- What holds when the call's body is left by an exception. -/
def Failed (Y : Core → Prop) (error : Exception) (s : Ingress P) (stake : Stake) : Prop :=
  error.Genuine ∧ Owns Y s stake

/-- Nothing is claimed of the core but its counts. -/
def anyCore : Core → Prop := fun _ => True

theorem Owns.imp {Y Z : Core → Prop} {s : Ingress P} {stake : Stake} (h : Owns Y s stake)
    (hImp : Y s.core → Z s.core) : Owns Z s stake := ⟨hImp h.1, h.2⟩

theorem Owns.any {Y : Core → Prop} {s : Ingress P} {stake : Stake} (h : Owns Y s stake) :
    Owns anyCore s stake := h.imp fun _ => trivial

theorem unclosed_snoc {own : List StreamEvent} {event : StreamEvent} (h : Unclosed own)
    (hEvent : event.closed? = none) : Unclosed (own ++ [event]) := by
  intro other hOther
  rcases List.mem_append.mp hOther with hOld | hLast
  · exact h other hOld
  · rw [List.mem_singleton.mp hLast]
    exact hEvent

theorem derived_payload {event : StreamEvent}
    (h : event.payload.any Payload.isDerived = true) :
    event.closed? = none ∧ event.source? = none := by
  obtain ⟨cursor, producer, emittedAt, payload⟩ := event
  cases payload with
  | none => cases h
  | some payload => cases payload <;> first | exact ⟨rfl, rfl⟩ | cases h

/-- A derived event leaves the accounts alone. -/
theorem Owns.derived {Y : Core → Prop} {s : Ingress P} {home : Bytes × Bytes}
    {own : List StreamEvent} (hY : Y s.core) (hId : s.Names home) (hOpen : Unclosed own)
    (hCounts : s.core.Counts (sourceChunks own)) {event : StreamEvent}
    (hEvent : event.payload.any Payload.isDerived = true) :
    Owns Y s (some (home, own ++ [event])) := by
  obtain ⟨hNotClosed, hNotSource⟩ := derived_payload hEvent
  refine ⟨hY, home, _, rfl, hId, unclosed_snoc hOpen hNotClosed, ?_⟩
  rw [sourceChunks, List.filterMap_append, List.filterMap_cons, hNotSource, List.filterMap_nil,
    List.append_nil]
  exact hCounts

abbrev Ingest.Triple {α : Type} (pre : Ingress P → Stake → Prop) (m : Ingest P α)
    (post : α → Ingress P → Stake → Prop) (Z : Core → Prop) : Prop :=
  Routine.Triple registryContract pre m post (Failed Z)

/-- A triple whose failure condition depends on what is thrown. -/
abbrev Ingest.Guards {α : Type} (pre : Ingress P → Stake → Prop) (m : Ingest P α)
    (post : α → Ingress P → Stake → Prop) (Z : Exception → Core → Prop) : Prop :=
  Routine.Triple registryContract pre m post fun error => Failed (Z error) error

namespace Ingest

variable {Y : Core → Prop} {Z : Exception → Core → Prop} {config : ServiceConfig} {call : Call}

/-- A routine that leaves the core alone, however it ends. -/
def KeepsCore {α : Type} (m : Ingest P α) : Prop :=
  ∀ Y : Core → Prop, Triple (Owns Y) m (fun _ => Owns Y) Y

theorem write_keeps : KeepsCore (write call : Ingest P Bool) := by
  intro Y
  unfold write
  refine .bind (Q := fun _ => Owns Y) (.get fun s g h => h) fun s => ?_
  refine .bind (Q := fun _ => Owns Y) (.modify _ fun s g h => h) fun _ => ?_
  exact .pure _ fun s g h => h

theorem checkedWrite_keeps (error : Failure) (hError : error.code ≠ .ok) :
    KeepsCore (do if ← write call then return () else Routine.throw (.failure error) :
      Ingest P Unit) := by
  intro Y
  refine .bind (write_keeps Y) fun sent => ?_
  cases sent with
  | true => exact .pure _ fun s g h => h
  | false => exact .throw _ fun s g h => ⟨hError, h⟩

theorem send_keeps (event : StreamEvent) : KeepsCore (send call event : Ingest P Unit) :=
  checkedWrite_keeps ⟨.cancelled, "ingress response disconnected"⟩ (by decide)

theorem derived_keeps (draft : EventDraft) (libraryVersion : Bytes) {α : Type}
    {next : StreamEvent → Ingest P α} (hNext : ∀ event, KeepsCore (next event)) :
    KeepsCore (do
      let s ← Routine.get
      let event ← registry (.derived s.id draft libraryVersion)
      next event) := by
  intro Y
  refine .bind (Q := fun s s' g => s' = s ∧ Owns Y s g) (.get fun s g h => ⟨rfl, h⟩) fun s => ?_
  refine .bind (Q := fun _ => Owns Y) ?_ fun event => hNext event Y
  refine .bind (Q := fun reply s g => match reply with
    | .ok _ => Owns Y s g
    | .error error => error.code ≠ .ok ∧ Owns Y s g) (.perform ?_) fun reply => ?_
  · rintro s' g ⟨rfl, hY, home, own, rfl, hId, hOpen, hCounts⟩
    exact ⟨home, own, rfl, hId.1, hOpen, fun error hCode => ⟨hCode, hY, home, own, rfl, hId, hOpen, hCounts⟩,
      fun event hEvent => Owns.derived hY hId hOpen hCounts hEvent⟩
  · cases reply with
    | ok event => exact .pure _ fun s g h => h
    | error error => exact .throw _ fun s g h => h

theorem emitProcessed_keeps (draft : EventDraft) :
    KeepsCore (emitProcessed call draft : Ingest P Unit) :=
  derived_keeps draft [] fun event => send_keeps event

theorem describe_keeps (info : HttpResponseInfo) :
    KeepsCore (describe config call info : Ingest P Unit) :=
  derived_keeps _ _ fun _ =>
    checkedWrite_keeps ⟨.cancelled, "HTTP source response disconnected"⟩ (by decide)

theorem describeAll_keeps (infos : List HttpResponseInfo) :
    KeepsCore (describeAll config call infos : Ingest P Unit) := by
  intro Y
  induction infos with
  | nil => exact .pure _ fun s g h => h
  | cons info infos ih => exact .bind (describe_keeps info Y) fun _ => ih

/-- Processing may do anything: the accounts do not depend on it. -/
theorem work_keeps {α : Type} (w : Work α) : KeepsCore (work call w : Ingest P α) := by
  intro Y
  induction w with
  | done a => exact .pure _ fun s g h => h
  | throw error => exact .throw _ fun s g h => ⟨error.property, h⟩
  | emit draft next ih =>
    rw [work]
    refine .bind (Q := fun _ => Owns Y) (.attempt ?_) fun result => ?_
    · exact (emitProcessed_keeps draft Y).except fun error s g h => h.2
    · cases result with
      | ok _ => exact ih none
      | error error => exact ih (some error)

theorem KeepsCore.guards {α : Type} {m : Ingest P α} (h : KeepsCore m)
    (hZ : ∀ error core, Y core → Z error core) : Guards (Owns Y) m (fun _ => Owns Y) Z :=
  (h Y).except fun error s _ hFailed => ⟨hFailed.1, hFailed.2.imp (hZ error s.core)⟩

theorem read_triple (config : ServiceConfig) (call : Call) (Y : Core → Prop) :
    Triple (Owns Y) (read config call : Ingest P (Option IngestRequest))
      (fun message => Owns fun core => ∃ before, Y before ∧ core = before.heard message) Y := by
  refine .bind (Q := fun _ => Owns Y) (.get fun s g h => h) fun s => ?_
  cases s.arrivals with
  | nil => exact .pure _ fun s g h => ⟨⟨s.core, h.1, rfl⟩, h.2⟩
  | cons arrival rest =>
    refine .bind (Q := fun _ => Owns Y) (.modify _ fun s g h => h) fun _ => ?_
    refine .bind (describeAll_keeps _ Y) fun _ => ?_
    cases arrival.result with
    | error error => exact .throw _ fun s g h => ⟨error.property, h⟩
    | ok message =>
      refine .bind (.modify _ fun s g h => ?_) fun _ => .pure _ fun s g h => h
      exact ⟨⟨s.core, h.1, rfl⟩, h.2⟩

theorem checkChunk_eq_ok {s : Ingress P} {chunk : SourceChunk}
    (h : checkChunk config s chunk = .ok ()) :
    chunk.chunkNumber = s.count + 1 ∧ chunk.byteOffset = s.bytes := by
  obtain ⟨_, -, h⟩ := bind_eq_ok h
  obtain ⟨_, -, h⟩ := bind_eq_ok h
  obtain ⟨_, hContiguous, -⟩ := bind_eq_ok h
  have hContiguous := require_eq_ok.mp hContiguous
  simp only [Bool.and_eq_true, beq_iff_eq] at hContiguous
  exact ⟨hContiguous.1.2, hContiguous.2⟩

theorem checkChunk_reported (s : Ingress P) (chunk : SourceChunk) :
    Reported (checkChunk config s chunk) :=
  .bind (.require StatusCode.noConfusion) fun _ => .bind (.require StatusCode.noConfusion) fun _ =>
    .bind (.require StatusCode.noConfusion) fun _ => .bind (.require StatusCode.noConfusion) fun _ =>
      .require StatusCode.noConfusion

/-- Between counting a chunk and publishing it the accounts are one chunk ahead. -/
def Ahead (Y : Core → Prop) (id : Bytes) (chunk : SourceChunk) (s : Ingress P) (stake : Stake) :
    Prop :=
  Y s.core ∧ id = s.id ∧ ∃ home own, stake = some (home, own) ∧ s.Names home ∧ Unclosed own ∧
    s.core.Counts (sourceChunks own ++ [chunk])

theorem source_triple (Y : Core → Prop) (id : Bytes) (chunk : SourceChunk) :
    Triple (Ahead Y id chunk) (registry (.source id chunk) : Ingest P StreamEvent)
      (fun _ => Owns Y) Y := by
  refine .bind (Q := fun reply s g => (∃ event, reply = .ok event) ∧ Owns Y s g) (.perform ?_)
    fun reply => ?_
  · rintro s g ⟨hY, rfl, home, own, rfl, hId, hOpen, hCounts⟩
    refine ⟨home, own, rfl, hId.1, hOpen, fun event hEvent => ⟨⟨event, rfl⟩, hY, home, _, rfl, hId, ?_, ?_⟩⟩
    · exact unclosed_snoc hOpen (by rw [StreamEvent.closed?, hEvent])
    · have hSource : event.source? = some chunk := by rw [StreamEvent.source?, hEvent]
      rw [sourceChunks, List.filterMap_append, List.filterMap_cons, hSource]
      exact hCounts
  · cases reply with
    | ok event => exact .pure _ fun s g h => h.2
    | error error =>
      refine .throw _ fun s g h => ?_
      obtain ⟨⟨event, hEvent⟩, -⟩ := h
      cases hEvent

/-- What a message leaves behind, read while the input was still open. -/
def Hears (Y : Core → Prop) (message : Option IngestRequest) (core : Core) : Prop :=
  ∃ before, (Y before ∧ before.explicitFinish = false) ∧ core = before.heard message

theorem verdict_chunk_none {s : Ingress P} {chunk : SourceChunk}
    (h : checkChunk config s chunk = .ok ()) : verdict config s.count s.bytes (.chunk chunk) = none := by
  change (match checkChunk config s chunk with
    | .ok _ => none
    | .error failure => some failure) = none
  rw [h]

theorem verdict_chunk_some {s : Ingress P} {chunk : SourceChunk} {failure : Failure}
    (h : checkChunk config s chunk = .error failure) :
    verdict config s.count s.bytes (.chunk chunk) = some failure := by
  change (match checkChunk config s chunk with
    | .ok _ => none
    | .error failure => some failure) = some failure
  rw [h]

theorem verdict_chunk_contiguous {count bytes : Nat} {chunk : SourceChunk}
    (h : verdict config count bytes (.chunk chunk) = none) :
    chunk.chunkNumber = count + 1 ∧ chunk.byteOffset = bytes := by
  rw [verdict] at h
  split at h
  · rename_i hCheck
    exact checkChunk_eq_ok hCheck
  · cases h

/-- A rejected message leaves the condition on failures. -/
theorem Hears.rejected (hY : Core.Admits config Y Z) {message : IngestRequest} {core : Core}
    {failure : Failure} (h : Hears Y (some message) core)
    (hVerdict : verdict config core.count core.bytes message = some failure) :
    Z (.failure failure) core := by
  obtain ⟨before, ⟨hBefore, hMore⟩, rfl⟩ := h
  exact hY.rejected hBefore hMore hVerdict

theorem takeChunk_triple (hY : Core.Admits config Y Z) (chunk : SourceChunk) :
    Guards (Owns (Hears Y (some (.chunk chunk)))) (takeChunk config call chunk : Ingest P Unit)
      (fun _ => Owns Y) Z := by
  refine .bind (Q := fun s s' g => s' = s ∧ Owns (Hears Y (some (.chunk chunk))) s g)
    (.get fun s g h => ⟨rfl, h⟩) fun s => ?_
  cases hCheck : checkChunk config s chunk with
  | error error =>
    refine .bind (Q := fun _ _ _ => False) (.throw _ ?_) fun _ _ _ h => h.elim
    rintro s' g ⟨rfl, h⟩
    exact ⟨checkChunk_reported s' chunk error hCheck,
      h.imp fun hHears => hHears.rejected hY (verdict_chunk_some hCheck)⟩
  | ok _ =>
    have hVerdict := verdict_chunk_none hCheck
    refine .bind (Q := fun _ s' g => s' = s ∧ Owns (Hears Y (some (.chunk chunk))) s g)
      (.pure _ fun s g h => h) fun _ => ?_
    refine .bind (Q := fun _ => Ahead Y s.id { chunk with sha256 := config.native.sha256 chunk.data })
      (.modify _ ?_) fun _ => ?_
    · rintro s' g ⟨rfl, ⟨before, ⟨hBefore, hMore⟩, hCore⟩, home, own, rfl, hId, hOpen, hCounts⟩
      refine ⟨?_, rfl, home, own, rfl, hId, hOpen, Core.Counts.snoc hCounts _⟩
      have hCount : before.count = s'.count := (congrArg Core.count hCore).symm
      have hBytes : before.bytes = s'.bytes := (congrArg Core.bytes hCore).symm
      have hAfter := hY.chunk hBefore hMore (by rw [hCount, hBytes]; exact hVerdict)
      rw [← hCore] at hAfter
      exact hAfter
    · refine .bind ((source_triple Y s.id _).except fun e s g h => ?_) fun event => ?_
      · exact ⟨h.1, h.2.imp (hY.interrupted e)⟩
      · refine .bind ((send_keeps event).guards fun error core => hY.interrupted error) fun _ => ?_
        exact .modify _ fun s g h => h

theorem takeMessage_triple (hY : Core.Admits config Y Z) (message : IngestRequest) :
    Guards (Owns (Hears Y (some message))) (takeMessage config call message : Ingest P Bool)
      (fun _ => Owns Y) Z := by
  cases message with
  | finish finish =>
    refine .bind (Q := fun _ => Owns Y) (.modify _ ?_) fun _ => .pure _ fun s g h => h
    rintro s g ⟨⟨before, ⟨hBefore, hOpen⟩, hCore⟩, hOwn⟩
    refine ⟨?_, hOwn⟩
    have hAfter := hY.finish finish hBefore hOpen
    rw [← hCore] at hAfter
    exact hAfter
  | chunk chunk => exact .bind (takeChunk_triple hY chunk) fun _ => .pure _ fun s g h => h
  | «open» request =>
    exact .throw _ fun s g h => ⟨StatusCode.noConfusion, h.imp fun hHears => hHears.rejected hY rfl⟩
  | notSet =>
    exact .throw _ fun s g h => ⟨StatusCode.noConfusion, h.imp fun hHears => hHears.rejected hY rfl⟩

theorem nextChunk_triple (hY : Core.Admits config Y Z) :
    Guards (Owns Y) (nextChunk config call : Ingest P Bool) (fun _ => Owns Y) Z := by
  refine .bind (Q := fun s s' g => s' = s ∧ Owns Y s g) (.get fun s g h => ⟨rfl, h⟩) fun s => ?_
  by_cases hFinish : s.explicitFinish = true
  · rw [if_pos hFinish]
    refine .pure _ ?_
    rintro s' g ⟨rfl, h⟩
    exact h
  · rw [if_neg hFinish]
    refine .bind ((read_triple config call fun core => Y core ∧ core.explicitFinish = false).weaken
      ?_ (fun _ _ _ h => h) fun e s g h => ?_) fun message => ?_
    · rintro s' g ⟨rfl, h⟩
      exact ⟨⟨h.1, Bool.eq_false_iff.mpr hFinish⟩, h.2⟩
    · exact ⟨h.1, h.2.imp fun hCore => hY.interrupted e hCore.1⟩
    · cases message with
      | none =>
        refine .throw _ fun s g h => ⟨StatusCode.noConfusion, h.imp ?_⟩
        rintro ⟨before, ⟨hBefore, -⟩, hCore⟩
        rw [hCore]
        exact hY.interrupted _ hBefore
      | some message => exact takeMessage_triple hY message

theorem refill_triple (hY : Core.Admits config Y Z) :
    Guards (Owns Y) (refill config call : Ingest P Bool) (fun _ => Owns Y) Z := by
  refine .bind (Q := fun _ => Owns Y) (.get fun s g h => h) fun s => ?_
  split
  · exact nextChunk_triple hY
  · exact .pure _ fun s g h => h

theorem readMedia_triple (hY : Core.Admits config Y Z) (capacity : Nat) :
    Guards (Owns Y) (readMedia config call capacity : Ingest P Bytes) (fun _ => Owns Y) Z := by
  refine .bind (refill_triple hY) fun more => ?_
  cases more with
  | false => exact .pure _ fun s g h => h
  | true =>
    refine .bind (Q := fun _ => Owns Y) (.get fun s g h => h) fun s => ?_
    exact .bind (Q := fun _ => Owns Y) (.modify _ fun s g h => h) fun _ => .pure _ fun s g h => h

/-- Conditions on well-formed messages alone say nothing of a failure. -/
theorem admits_of_follows (hY : Core.Follows Y) : Core.Admits config Y fun _ => anyCore where
  chunk hCore hMore hVerdict := by
    obtain ⟨hNumber, hOffset⟩ := verdict_chunk_contiguous hVerdict
    exact hY.chunk hCore hMore hNumber hOffset
  finish finish hCore hMore := hY.finish finish hCore hMore
  interrupted _ _ := trivial
  rejected _ _ _ := trivial

variable {factory : ProcessingFactory} {emitAudio : Bool}

theorem hearAudio_keeps (draft : EventDraft) : KeepsCore (hearAudio call factory draft) := by
  intro Y
  refine .bind (Q := fun _ => Owns Y) (.get fun s g h => h) fun s => ?_
  split
  · exact .bind (work_keeps _ Y) fun _ => .modify _ fun s g h => h
  · exact .pure _ fun s g h => h

theorem emitMedia_keeps (draft : EventDraft) :
    KeepsCore (emitMedia config call factory emitAudio draft) := by
  intro Y
  refine .bind (hearAudio_keeps draft Y) fun _ => ?_
  split
  · exact derived_keeps draft config.decoderVersion (fun event => send_keeps event) Y
  · exact .pure _ fun s g h => h

theorem anyCore_follows : Core.Follows anyCore := ⟨fun _ _ _ _ => trivial, fun _ _ _ => trivial⟩

/-- After a failed read the native call can only end with that failure. -/
theorem decodeMedia_failed {inside : Bool} (d : Decoding inside) (hInside : inside = true)
    (error : Exception) :
    Triple (Failed anyCore error) (decodeMedia config call factory emitAudio d (some error))
      (fun _ _ _ => False) anyCore := by
  induction d generalizing error with
  | done => cases hInside
  | throw _ => cases hInside
  | emit _ _ _ => cases hInside
  | enter _ _ => cases hInside
  | leave next _ =>
    rw [decodeMedia]
    exact .throw _ fun s g h => h
  | pull cancelled capacity next ih =>
    cases cancelled with
    | true =>
      rw [decodeMedia]
      exact (ih .external rfl _).pre fun s g h => ⟨StatusCode.noConfusion, h.2⟩
    | false =>
      rw [decodeMedia]
      refine .attempt_bind ((readMedia_triple (admits_of_follows anyCore_follows) capacity).frame.except
        fun _ _ _ h => h.2) (fun bytes => ?_) fun other => ?_
      · cases bytes with
        | nil => exact ih .endOfFile rfl error
        | cons byte data => exact ih (.bytes (byte :: data)) rfl error
      · exact ih .external rfl other

theorem decodeMedia_triple (hY : Core.Follows Y) {inside : Bool} (d : Decoding inside) :
    Triple (Owns Y) (decodeMedia config call factory emitAudio d none) (fun _ => Owns Y) anyCore := by
  induction d with
  | done =>
    rw [decodeMedia]
    exact .pure _ fun s g h => h
  | throw error =>
    rw [decodeMedia]
    exact .throw _ fun s g h => ⟨error.property, h.any⟩
  | emit draft next ih =>
    rw [decodeMedia]
    exact .bind ((emitMedia_keeps draft Y).except fun e s g h => ⟨h.1, h.2.any⟩) fun _ => ih
  | enter inner ih =>
    rw [decodeMedia]
    exact ih
  | leave next ih =>
    rw [decodeMedia]
    exact ih
  | pull cancelled capacity next ih =>
    cases cancelled with
    | true =>
      rw [decodeMedia]
      exact (decodeMedia_failed (next .external) rfl _).weaken
        (fun s g h => ⟨StatusCode.noConfusion, h.any⟩) (fun _ _ _ h => h.elim) fun _ _ _ h => h
    | false =>
      rw [decodeMedia]
      refine .attempt_bind (readMedia_triple (admits_of_follows hY) capacity) (fun bytes => ?_)
        fun error => ?_
      · cases bytes with
        | nil => exact ih .endOfFile
        | cons byte data => exact ih (.bytes (byte :: data))
      · exact (decodeMedia_failed (next .external) rfl error).post fun _ _ _ h => h.elim

theorem drain_triple (hY : Core.Admits config Y Z) (rounds : Nat) :
    Guards (Owns Y) (drain config call rounds : Ingest P Unit) (fun _ => Owns Y) Z := by
  induction rounds with
  | zero => exact .pure _ fun s g h => h
  | succ rounds ih =>
    refine .bind (nextChunk_triple hY) fun more => ?_
    cases more with
    | true => exact ih
    | false => exact .pure _ fun s g h => h

section Rounds

/-- Fewer than so many reads are still to come. -/
def Left (n : Nat) (s : Ingress P) (_ : Unit) : Prop := s.arrivals.length < n

/-- A routine that reads nothing itself. -/
def KeepsArrivals {α : Type} (m : Ingest P α) : Prop :=
  ∀ n, Routine.Triple Contract.any (Left n) m (fun _ => Left n) fun _ _ _ => True

theorem registry_arrivals (request : RegistryRequest) :
    KeepsArrivals (registry request : Ingest P StreamEvent) := by
  intro n
  refine .bind (Q := fun _ => Left n) (.perform fun s g h reply => h) fun reply => ?_
  cases reply with
  | ok event => exact .pure _ fun s g h => h
  | error error => exact .throw _ fun s g h => trivial

theorem checkedWrite_arrivals (error : Failure) :
    KeepsArrivals (do if ← write call then return () else Routine.throw (.failure error) :
      Ingest P Unit) := by
  intro n
  refine .bind (Q := fun _ => Left n) ?_ fun sent => ?_
  · refine .bind (Q := fun _ => Left n) (.get fun s g h => h) fun s => ?_
    exact .bind (Q := fun _ => Left n) (.modify _ fun s g h => h) fun _ => .pure _ fun s g h => h
  · cases sent with
    | true => exact .pure _ fun s g h => h
    | false => exact .throw _ fun s g h => trivial

theorem describeAll_arrivals (infos : List HttpResponseInfo) :
    KeepsArrivals (describeAll config call infos : Ingest P Unit) := by
  intro n
  induction infos with
  | nil => exact .pure _ fun s g h => h
  | cons info infos ih =>
    refine .bind (Q := fun _ => Left n) ?_ fun _ => ih
    refine .bind (Q := fun _ => Left n) (.get fun s g h => h) fun s => ?_
    exact .bind (registry_arrivals _ n) fun _ => checkedWrite_arrivals _ n

theorem takeMessage_arrivals (message : IngestRequest) :
    KeepsArrivals (takeMessage config call message : Ingest P Bool) := by
  intro n
  cases message with
  | finish finish =>
    exact .bind (Q := fun _ => Left n) (.modify _ fun s g h => h) fun _ => .pure _ fun s g h => h
  | chunk chunk =>
    refine .bind (Q := fun _ => Left n) ?_ fun _ => .pure _ fun s g h => h
    refine .bind (Q := fun _ => Left n) (.get fun s g h => h) fun s => ?_
    refine .bind (Q := fun _ => Left n) ?_ fun _ => ?_
    · cases checkChunk config s chunk with
      | error error => exact .throw _ fun s g h => trivial
      | ok _ => exact .pure _ fun s g h => h
    · refine .bind (Q := fun _ => Left n) (.modify _ fun s g h => h) fun _ => ?_
      refine .bind (registry_arrivals _ n) fun event => ?_
      exact .bind (checkedWrite_arrivals _ n) fun _ => .modify _ fun s g h => h
  | «open» request => exact .throw _ fun s g h => trivial
  | notSet => exact .throw _ fun s g h => trivial

theorem read_arrivals (n : Nat) :
    Routine.Triple Contract.any (Left (n + 1)) (read config call : Ingest P (Option IngestRequest))
      (fun message s g => message.isSome = true → Left n s g) fun _ _ _ => True := by
  refine .bind (Q := fun s s' g => s' = s ∧ Left (n + 1) s g) (.get fun s g h => ⟨rfl, h⟩)
    fun s => ?_
  cases hArrivals : s.arrivals with
  | nil => exact .pure _ fun s g h hTrue => (nomatch hTrue)
  | cons arrival rest =>
    refine .bind (Q := fun _ => Left n) (.modify _ ?_) fun _ => ?_
    · rintro s' g ⟨-, h⟩
      rw [Left, hArrivals] at h
      exact Nat.lt_of_succ_lt_succ h
    · refine .bind (describeAll_arrivals _ n) fun _ => ?_
      cases arrival.result with
      | error error => exact .throw _ fun s g h => trivial
      | ok message =>
        exact .bind (Q := fun _ => Left n) (.modify _ fun s g h => h) fun _ =>
          .pure _ fun s g h _ => h

/-- A round of the drain that goes on has taken an arrival. -/
theorem nextChunk_arrivals (n : Nat) :
    Routine.Triple Contract.any (Left (n + 1)) (nextChunk config call : Ingest P Bool)
      (fun more s g => more = true → Left n s g) fun _ _ _ => True := by
  refine .bind (Q := fun _ => Left (n + 1)) (.get fun s g h => h) fun s => ?_
  split
  · exact .pure _ fun s g h hTrue => (nomatch hTrue)
  · refine .bind (read_arrivals n) fun message => ?_
    cases message with
    | none => exact .throw _ fun s g h => trivial
    | some message =>
      exact (takeMessage_arrivals message n).weaken (fun s g h => h rfl) (fun _ _ _ h _ => h)
        fun _ _ _ h => h

/-- One round more than there are arrivals is enough: further ones make no difference. -/
theorem drain_enough (rounds : Nat) (s : Ingress P) (h : s.arrivals.length < rounds) :
    drain config call (rounds + 1) s = drain config call rounds s := by
  induction rounds generalizing s with
  | zero => exact absurd h (Nat.not_lt_zero _)
  | succ rounds ih =>
    refine Program.bind_congr ((nextChunk_arrivals rounds s () h).imp ?_)
    rintro ⟨result, s'⟩ g hResult
    cases result with
    | error error => rfl
    | ok more =>
      cases more with
      | false => rfl
      | true => exact ih s' (hResult rfl)

end Rounds

theorem createProcessing_keeps (accepted : OpenStream) :
    KeepsCore (createProcessing call factory accepted) := by
  intro Y
  unfold createProcessing
  split
  · exact .pure _ fun s g h => h
  · refine .bind (Q := fun _ => Owns Y) (.get fun s g h => h) fun s => ?_
    exact .bind (work_keeps _ Y) fun _ => .modify _ fun s g h => h

theorem finishProcessing_keeps : KeepsCore (finishProcessing call factory) := by
  intro Y
  refine .bind (Q := fun _ => Owns Y) (.get fun s g h => h) fun s => ?_
  split
  · exact work_keeps _ Y
  · exact .pure _ fun s g h => h

theorem settle_triple (hZ : ∀ error core, Y core → Z error core) :
    Guards (Owns Y) (settle call factory)
      (fun _ => Owns fun core => Y core ∧ Core.Settled core) Z := by
  refine .bind (Q := fun s s' g => s' = s ∧ Owns Y s g) (.get fun s g h => ⟨rfl, h⟩) fun s => ?_
  cases hFinish : s.explicitFinish with
  | false =>
    refine .throw _ ?_
    rintro s' g ⟨rfl, h⟩
    exact ⟨StatusCode.noConfusion, h.imp (hZ _ _)⟩
  | true =>
    by_cases hCounts : s.finish.chunkCount ≠ s.count ∨ s.finish.byteCount ≠ s.bytes
    · simp only [Bool.not_true, Bool.false_eq_true, if_false, if_pos hCounts]
      refine .throw _ ?_
      rintro s' g ⟨rfl, h⟩
      exact ⟨StatusCode.noConfusion, h.imp (hZ _ _)⟩
    · simp only [Bool.not_true, Bool.false_eq_true, if_false, if_neg hCounts]
      refine (finishProcessing_keeps.guards fun error core h => hZ error core h.1).pre ?_
      rintro s' g ⟨rfl, h⟩
      rw [not_or, not_not, not_not] at hCounts
      exact ⟨⟨h.1, hFinish, hCounts⟩, h.2⟩

/-- What comes before the decoding leads to such states only. -/
def Prepares (call : Call) (factory : ProcessingFactory) (accepted : OpenStream) (opened : StreamEvent)
    (R : Ingress factory.State → Prop) (s : Ingress factory.State) : Prop :=
  (send call opened).Leads s fun _ s =>
    (createProcessing call factory accepted).Leads s fun _ => R

/-- The body of a call whose decoding respects the conditions in the states it starts in. -/
theorem ingest_prepared (hY : Core.Admits config Y Z) {accepted : OpenStream} {opened : StreamEvent}
    {R : Ingress factory.State → Prop}
    (hDecode : Guards (fun s g => Owns Y s g ∧ R s) (decodeIfAsked config call factory accepted)
      (fun _ => Owns Y) Z) :
    Guards (fun s g => Owns Y s g ∧ Prepares call factory accepted opened R s)
      (ingest config call factory accepted opened)
      (fun _ => Owns fun core => Y core ∧ Core.Settled core) Z := by
  have hZ : ∀ error core, Y core → Z error core := fun error core => hY.interrupted error
  refine .bind ((send_keeps opened).guards hZ).leads fun _ => ?_
  refine .bind ((createProcessing_keeps accepted).guards hZ).leads fun _ => ?_
  refine .bind hDecode fun _ => ?_
  refine .bind (Q := fun _ => Owns Y) ?_ fun _ => settle_triple hZ
  exact .bind (Q := fun _ => Owns Y) (.get fun s g h => h) fun s => drain_triple hY _

/-- The body of a call, for a demuxer that respects the conditions. -/
theorem ingest_triple (hY : Core.Admits config Y Z)
    (hDecode : ∀ emitAudio, Guards (Owns Y) (decodeMedia config call factory emitAudio call.decoding none)
      (fun _ => Owns Y) Z) (accepted : OpenStream) (opened : StreamEvent) :
    Guards (Owns Y) (ingest config call factory accepted opened)
      (fun _ => Owns fun core => Y core ∧ Core.Settled core) Z := by
  have hAny : Guards (fun s g => Owns Y s g ∧ True) (decodeIfAsked config call factory accepted)
      (fun _ => Owns Y) Z := by
    rw [decodeIfAsked]
    split
    · exact (hDecode _).pre fun s g h => h.1
    · exact .pure _ fun s g h => h.1
  refine (ingest_prepared hY hAny).pre fun s g h => ⟨h, ?_⟩
  exact .of fun _ s => .of fun _ s => trivial

end Ingest

/-- Chunks numbered from one, each starting where the one before it ended. -/
def Contiguous (chunks : List SourceChunk) : Prop :=
  ∀ before chunk after, chunks = before ++ chunk :: after →
    chunk.chunkNumber = before.length + 1 ∧ chunk.byteOffset = totalBytes before

theorem Contiguous.snoc {chunks : List SourceChunk} {chunk : SourceChunk} (h : Contiguous chunks)
    (hNumber : chunk.chunkNumber = chunks.length + 1) (hOffset : chunk.byteOffset = totalBytes chunks) :
    Contiguous (chunks ++ [chunk]) := by
  intro before other after hSplit
  rcases History.snoc_eq_append_cons.mp hSplit with ⟨rfl, rfl, -⟩ | ⟨rest, -, hChunks⟩
  · exact ⟨hNumber, hOffset⟩
  · exact h before other rest hChunks

/-- The messages after the opening one are contiguous chunks, then the finish, if it came;
the counters and the digest are those of the chunks. -/
def Clean (request : OpenStream) (core : Core) : Prop :=
  ∃ chunks, Contiguous chunks ∧ core.Counts chunks ∧
    core.consumed = .open request :: chunks.map .chunk ++
      (if core.explicitFinish then [.finish core.finish] else [])

theorem clean_follows (request : OpenStream) : Core.Follows (Clean request) where
  chunk := by
    rintro core chunk ⟨chunks, hContiguous, hCounts, hConsumed⟩ hMore hNumber hOffset
    refine ⟨chunks ++ [chunk], ?_, Core.Counts.snoc hCounts chunk, ?_⟩
    · exact hContiguous.snoc (hNumber.trans (congrArg (· + 1) hCounts.1)) (hOffset.trans hCounts.2.1)
    · rw [hMore] at hConsumed
      simp only [Core.counted, Core.heard, hMore, hConsumed]
      simp
  finish := by
    rintro core finish ⟨chunks, hContiguous, hCounts, hConsumed⟩ hMore
    refine ⟨chunks, hContiguous, hCounts, ?_⟩
    rw [hMore] at hConsumed
    simp only [Core.finished, Core.heard, hConsumed]
    simp

/-- The terminal event states the number, the total size and the digest of the chunks. -/
def StreamClosed.Accounts (sha256 : Bytes → Bytes) (closed : StreamClosed)
    (chunks : List SourceChunk) : Prop :=
  closed.sourceChunkCount = chunks.length ∧ closed.sourceByteCount = totalBytes chunks ∧
    closed.sourceSha256 = sha256 (contents chunks)

/-- What a client has sent whose stream is reported complete. -/
def Conforms (sha256 : Bytes → Bytes) (closed : StreamClosed) (consumed : List IngestRequest) :
    Prop :=
  ∃ request chunks finish, consumed = .open request :: chunks.map .chunk ++ [.finish finish] ∧
    Contiguous chunks ∧ closed.Accounts sha256 chunks ∧ finish.chunkCount = chunks.length ∧
    finish.byteCount = totalBytes chunks ∧
    (finish.sha256 = [] ∨ finish.sha256 = closed.sourceSha256)

/-- The events of a finished call: one terminal event, the last, which accounts for the
source events before it and reports success only of well-formed input. -/
def Terminated (sha256 : Bytes → Bytes) (consumed : List IngestRequest) (own : List StreamEvent) :
    Prop :=
  ∃ init event closed, own = init ++ [event] ∧ event.closed? = some closed ∧ Unclosed init ∧
    closed.Accounts sha256 (sourceChunks own) ∧
    (closed.statusCode = 0 → Conforms sha256 closed consumed)

/-- A call is done: it never opened a stream, or it has terminated it. -/
def Discharged (sha256 : Bytes → Bytes) (result : IngestResult) : Stake → Prop
  | none => True
  | some (_, own) => Terminated sha256 result.consumed own

variable {config : ServiceConfig} {call : Call}

theorem Exception.Genuine.status_code {error : Exception} (h : error.Genuine) :
    error.status.code ≠ .ok := by
  cases error with
  | failure error => exact h
  | _ => exact StatusCode.noConfusion

/-- Success is reported only when the body returned and the trailer's digest, if any, is
that of the input. -/
theorem finalStatus_ok {s : Ingress P} {result : Except Exception Unit}
    (h : (finalStatus config call s result).code = .ok)
    (hGenuine : ∀ error, result = .error error → error.Genuine) :
    result = .ok () ∧ (s.finish.sha256 = [] ∨ s.finish.sha256 = config.native.sha256 s.digest) := by
  rw [finalStatus] at h
  cases hCancelled : call.cancelled with
  | true =>
    rw [hCancelled] at h
    cases h
  | false =>
    rw [hCancelled] at h
    simp only [Bool.false_eq_true, if_false] at h
    split at h
    · cases h
    · rename_i hDigest
      cases result with
      | error error => exact absurd h (hGenuine error rfl).status_code
      | ok _ =>
        refine ⟨rfl, ?_⟩
        by_cases hEmpty : s.finish.sha256 = []
        · exact .inl hEmpty
        · refine .inr ?_
          simpa [bodyStatus, Status.isOk, Status.OK, hEmpty] using hDigest

theorem of_accounts {s : Ingress P} {status : Status} {chunks : List SourceChunk}
    (h : s.core.Counts chunks) :
    (StreamClosed.of config s status).Accounts config.native.sha256 chunks :=
  ⟨h.1, h.2.1, congrArg config.native.sha256 h.2.2⟩

theorem Clean.conforms {request : OpenStream} {s : Ingress P} {status : Status}
    (h : Clean request s.core) (hSettled : Core.Settled s.core)
    (hDigest : s.finish.sha256 = [] ∨ s.finish.sha256 = config.native.sha256 s.digest) :
    Conforms config.native.sha256 (.of config s status) s.consumed := by
  obtain ⟨chunks, hContiguous, hCounts, hConsumed⟩ := h
  obtain ⟨hFinish, hCount, hBytes⟩ := hSettled
  rw [hFinish] at hConsumed
  exact ⟨request, chunks, s.finish, hConsumed, hContiguous, of_accounts hCounts,
    hCount.trans hCounts.1, hBytes.trans hCounts.2.1, hDigest⟩

/-- What the body leaves to the finalization. -/
def BodyEnds (request : OpenStream) (result : Except Exception Unit) (s : Ingress P)
    (stake : Stake) : Prop :=
  match result with
  | .ok _ => Owns (fun core => Clean request core ∧ Core.Settled core) s stake
  | .error error => Failed anyCore error s stake

theorem BodyEnds.owns {request : OpenStream} {result : Except Exception Unit} {s : Ingress P}
    {stake : Stake} (h : BodyEnds request result s stake) : Owns anyCore s stake := by
  cases result with
  | ok _ => exact ⟨trivial, h.2⟩
  | error error => exact h.2

theorem BodyEnds.conforms {request : OpenStream} {result : Except Exception Unit} {s : Ingress P}
    {stake : Stake} (h : BodyEnds request result s stake)
    (hCode : (finalStatus config call s result).code = .ok) (status : Status) :
    Conforms config.native.sha256 (.of config s status) s.consumed := by
  obtain ⟨rfl, hDigest⟩ := finalStatus_ok hCode (by
    rintro error rfl
    exact h.1)
  exact Clean.conforms h.1.1 h.1.2 hDigest

theorem finalize_meets {request : OpenStream} {result : Except Exception Unit} {s : Ingress P}
    {stake : Stake} (h : BodyEnds request result s stake) :
    (finalize config call s result).Meets registryContract stake
      (Discharged config.native.sha256) := by
  obtain ⟨-, home, own, rfl, ⟨hId, hNamed⟩, hOpen, hCounts⟩ := h.owns
  rw [finalize, if_neg (by simpa using hNamed)]
  refine ⟨home, own, rfl, hId, hOpen, fun event hEvent => ?_⟩
  have hTerminated : Terminated config.native.sha256 s.consumed (own ++ [event]) := by
    refine ⟨own, event, _, rfl, by rw [StreamEvent.closed?, hEvent], hOpen, ?_, fun hOk => ?_⟩
    · have hSource : event.source? = none := by rw [StreamEvent.source?, hEvent]
      rw [sourceChunks, List.filterMap_append, List.filterMap_cons, hSource, List.filterMap_nil,
        List.append_nil]
      exact of_accounts hCounts
    · exact h.conforms ((StatusCode.value_eq_zero _).mp hOk) _
  dsimp only
  split <;> exact hTerminated

theorem start_owns {request : OpenStream} {opened : StreamEvent}
    (hOpened : opened.opened?.isSome = true) (hId : opened.cursor.streamId ≠ []) :
    Owns (Clean request) (.start call opened.cursor.streamId (.open request) : Ingress P)
      (some (opened.cursor.home, [opened])) := by
  have hPayload : opened.closed? = none ∧ opened.source? = none := by
    obtain ⟨cursor, producer, emittedAt, payload⟩ := opened
    cases payload with
    | none => cases hOpened
    | some payload => cases payload <;> first | exact ⟨rfl, rfl⟩ | cases hOpened
  refine ⟨⟨[], fun before chunk after hSplit => ?_, ⟨rfl, rfl, rfl⟩, rfl⟩, _, _, rfl, ⟨rfl, hId⟩,
    ?_, ?_⟩
  · cases before <;> cases hSplit
  · intro event hEvent
    rw [List.mem_singleton.mp hEvent]
    exact hPayload.1
  · rw [sourceChunks, List.filterMap_cons, hPayload.2]
    exact ⟨rfl, rfl, rfl⟩

theorem process_meets (config : ServiceConfig) (call : Call) :
    (process config call).Meets registryContract none (Discharged config.native.sha256) := by
  unfold process
  split
  · rename_i request _
    cases accept config request with
    | error error => trivial
    | ok accepted =>
      refine ⟨rfl, fun error => trivial, fun opened hOpened hId => ?_⟩
      refine Program.Meets.bind ?_
      have hFollows := clean_follows request
      refine (Ingest.ingest_triple (Ingest.admits_of_follows hFollows)
        (fun _ => Ingest.decodeMedia_triple hFollows _) accepted opened _ _
        (start_owns hOpened hId)).imp fun result stake hResult => ?_
      have hEnds : BodyEnds request result.1 result.2 stake := by
        match result, hResult with
        | (.ok _, s), hResult => exact hResult
        | (.error error, s), hResult => exact hResult
      exact finalize_meets hEnds
  · trivial

end GrpcAsr.Media
