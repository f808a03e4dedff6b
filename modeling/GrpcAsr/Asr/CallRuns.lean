import GrpcAsr.Asr.CallInvariant

/-!
# Every turn of a call keeps the invariant

One lemma for each thread says which part of the invariant a served request touches. The
ghost states of the threads are the roles of one contract, so the invariant holds after
any turns.
-/

namespace GrpcAsr.Asr

set_option autoImplicit false

open Interaction
open Media (Bytes ascii Status StatusCode)

section Steps

variable {call : AsrCall} {s s₁ s' : CallState} {g : RpcGhost} {w : WorkerGhost} {k : StillsGhost}
  {moment : Moment} {index : Nat} {request : Request} {reply : request.Answer}

theorem serve_eq_some
    (h : s.serve call.parse moment index request = some (reply, s')) :
    ∃ s₁, s.act call.parse moment request = some (reply, s₁) ∧
      s' = { s₁ with trace := s.trace ++ [⟨index, request, reply⟩] } := by
  obtain ⟨⟨reply₁, s₁⟩, hAct, hServed⟩ := Option.map_eq_some_iff.mp h
  obtain ⟨rfl, rfl⟩ := Prod.mk.inj hServed
  exact ⟨s₁, hAct, rfl⟩

/-- The invariant of the state after a request, with its entry in the history. -/
theorem CallInv.recorded
    (upload : UploadInv call.total s₁.upload s₁.stop g w.cut w.complete)
    (stills : StillsInv s₁.stills.interval s₁.stills.exited s₁.stills.count w.stills w.source
      w.frames w.ended k)
    (trace : TraceInv (s.marks ++ [request.mark reply]) s₁.stop s₁.upload.complete w.cut w.polled
      w.complete w.ended)
    (writer : WriterInv call s₁.writer s₁.stills.count w.finals w.folding w.complete w.source
      w.ended k)
    (exit : ExitInv s₁.workerStatus w.exited w.polled w.ended) :
    CallInv call { s₁ with trace := s.trace ++ [⟨index, request, reply⟩] } g w k := by
  refine ⟨upload, stills, ?_, writer, exit⟩
  rw [CallState.marks, List.map_append]
  exact trace

/-- A request that only reads. -/
theorem CallInv.noted (h : CallInv call s g w k) (hMark : request.mark reply = .other) :
    CallInv call { s with trace := s.trace ++ [⟨index, request, reply⟩] } g w k := by
  refine .recorded h.upload h.stills ?_ h.writer h.exit
  rw [hMark]
  exact h.trace.other

theorem rpc_step {Q : request.Answer → RpcGhost → Prop} (h : CallInv call s g w k)
    (hPromise : rpcPromise call.total request g Q)
    (hServed : s.serve call.parse moment index request = some (reply, s')) :
    ∃ g', Q reply g' ∧ CallInv call s' g' w k := by
  obtain ⟨s₁, hAct, rfl⟩ := serve_eq_some hServed
  cases request with
  | uploadSize =>
    cases hAct
    exact ⟨_, hPromise _, h.noted rfl⟩
  | isCancelled =>
    cases hAct
    exact ⟨_, hPromise _, h.noted rfl⟩
  | append data =>
    cases hAct
    obtain ⟨hOpen, hNext⟩ := hPromise
    refine ⟨_, hNext, .recorded ?_ h.stills h.trace.other h.writer h.exit⟩
    refine ⟨?_, h.upload.completed, ?_, h.upload.stopping, h.upload.aborted, h.upload.truncated,
      h.upload.seen⟩
    · exact congrArg (· ++ data) h.upload.bytes
    · exact fun hCompleted => (Bool.false_ne_true (hOpen.symm.trans hCompleted)).elim
  | complete =>
    cases hAct
    obtain ⟨hWhole, hNext⟩ := hPromise
    exact ⟨_, hNext, .recorded ⟨h.upload.bytes, rfl, fun _ => hWhole, h.upload.stopping,
      h.upload.aborted, h.upload.truncated, fun _ => rfl⟩ h.stills h.trace.completing h.writer h.exit⟩
  | abort =>
    cases hAct
    obtain ⟨hStopping, hNext⟩ := hPromise
    exact ⟨_, hNext, .recorded ⟨h.upload.bytes, h.upload.completed, h.upload.whole,
      h.upload.stopping, fun _ => h.upload.stopping hStopping, h.upload.truncated, h.upload.seen⟩
      h.stills h.trace.other h.writer h.exit⟩
  | requestStop =>
    cases hAct
    exact ⟨_, hPromise, .recorded ⟨h.upload.bytes, h.upload.completed, h.upload.whole,
      fun _ => rfl, fun _ => rfl, fun _ => rfl, h.upload.seen⟩ h.stills h.trace.requestStop h.writer
      h.exit⟩
  | watchWorker =>
    rw [CallState.act] at hAct
    split at hAct
    · cases hAct
      exact ⟨_, hPromise _, h.noted rfl⟩
    · split at hAct
      · cases hAct
        exact ⟨_, hPromise _, h.noted rfl⟩
      · cases hAct
  | joinWorker =>
    obtain ⟨status, -, hReply⟩ := Option.map_eq_some_iff.mp hAct
    cases hReply
    exact ⟨_, hPromise _, h.noted rfl⟩
  | tool _ | whisper _ | waitForPrefix _ | readAt _ _ | waitComplete | isComplete | isAborted
  | completedBytes | stopRequested _ | write _ | folding | setSource _ | finish _ | addAudioMs _
  | spawnKeyframes _ | forwardStop | stopKeyframes | joinKeyframes | keyframeError | keyframeCount
  | awaitSpawn | keyframeStopRequested | countKeyframe | exitKeyframes _ | exitWorker _
  | forever => exact hPromise.elim

/-- The keyframe thread went on, and nothing is left to count that was not. -/
theorem WriterInv.advance {writer : LockedWriter} {count count' : UInt32} {finals : Nat}
    {folding complete ended : Option Bool} {source : Option DocumentOrigin} {k' : StillsGhost}
    (h : WriterInv call writer count finals folding complete source ended k)
    (hPending : count + k.pending = count' + k'.pending) :
    WriterInv call writer count' finals folding complete source ended k' := by
  refine ⟨h.folds, h.named, fun hEnded => ?_, h.closed⟩
  have hOpen := h.opened hEnded
  exact ⟨hOpen.fold, hOpen.body, hOpen.folded, hOpen.counted, hOpen.stills.trans hPending⟩

theorem stills_step {Q : request.Answer → StillsGhost → Prop} (h : CallInv call s g w k)
    (hPromise : stillsPromise request k Q)
    (hServed : s.serve call.parse moment index request = some (reply, s')) :
    ∃ k', Q reply k' ∧ CallInv call s' g w k' := by
  obtain ⟨s₁, hAct, rfl⟩ := serve_eq_some hServed
  cases request with
  | awaitSpawn =>
    obtain ⟨hWaiting, hNext⟩ := hPromise
    obtain ⟨interval, hInterval, hReply⟩ := Option.map_eq_some_iff.mp hAct
    cases hReply
    have hSpawned : w.stills ≠ .absent := h.stills.spawned.mp (by rw [hInterval]; rfl)
    subst hWaiting
    refine ⟨_, hNext _, .recorded h.upload ?_ h.trace.other (h.writer.advance rfl) h.exit⟩
    refine ⟨h.stills.spawned, fun hAbsent => (hSpawned hAbsent).elim, ?_, ?_, h.stills.beside,
      h.stills.counted⟩
    · exact fun hExited => nomatch h.stills.finished hExited
    · exact fun hJoined => nomatch h.stills.joined hJoined
  | keyframeStopRequested =>
    cases hAct
    exact ⟨_, hPromise _, h.noted rfl⟩
  | write response =>
    cases response with
    | keyframe frame =>
      obtain ⟨hRunning, hNext⟩ := hPromise
      obtain ⟨hView, hExited⟩ := h.stills.running hRunning
      obtain ⟨hSource, -, hEnded⟩ := h.stills.beside hView
      obtain ⟨hReply, hState⟩ := Prod.mk.inj (Option.some.inj hAct)
      subst hRunning hState
      have hOpen := h.writer.opened hEnded
      rw [hSource] at hOpen
      have hPending : (StillsGhost.running reply).pending = (StillsGhost.running false).pending +
          UInt32.ofNat (if reply then (keyframesOf [.keyframe frame]).length else 0) := by
        cases reply <;> rfl
      have hWritten := hOpen.write rfl (Prod.ext hReply rfl) hPending
      refine ⟨_, hNext _, .recorded h.upload (h.stills.advance hView hExited _ _) h.trace.other
        ⟨h.writer.folds, h.writer.named, fun _ => ?_, fun ok hOk => ?_⟩ h.exit⟩
      · rw [hSource]
        exact hWritten
      · rw [hEnded] at hOk
        cases hOk
    | mediaInfo _ | partialSegment _ | finalSegment _ | complete _ | document _ | notSet =>
      exact hPromise.elim
  | countKeyframe =>
    cases hAct
    obtain ⟨hRunning, hNext⟩ := hPromise
    obtain ⟨hView, hExited⟩ := h.stills.running hRunning
    subst hRunning
    refine ⟨_, hNext, .recorded h.upload (h.stills.advance hView hExited _ _) h.trace.other
      (h.writer.advance ?_) h.exit⟩
    exact (UInt32.add_zero _).symm
  | exitKeyframes error =>
    cases hAct
    obtain ⟨hRunning, hNext⟩ := hPromise
    obtain ⟨hView, -⟩ := h.stills.running hRunning
    subst hRunning
    refine ⟨_, hNext, .recorded h.upload ?_ h.trace.other (h.writer.advance rfl) h.exit⟩
    refine ⟨h.stills.spawned, fun hAbsent => ?_, fun _ => rfl, fun _ => rfl, h.stills.beside,
      h.stills.counted⟩
    rw [hView] at hAbsent
    cases hAbsent
  | tool _ | whisper _ | waitForPrefix _ | readAt _ _ | waitComplete | isComplete | isAborted
  | completedBytes | stopRequested _ | folding | setSource _ | finish _ | addAudioMs _
  | spawnKeyframes _ | forwardStop | stopKeyframes | joinKeyframes | keyframeError | keyframeCount
  | uploadSize | append _ | complete | abort | requestStop | isCancelled | exitWorker _
  | watchWorker | joinWorker | forever => exact hPromise.elim

/-- A call into the decoder is cut short only after a stop. -/
theorem tool_served {tool : Tool} {answer : Except Thrown tool.Result}
    (h : s.act call.parse moment (.tool tool) = some (answer, s₁)) :
    s₁ = s ∧ (tool.cutShort answer = true → s.upload.aborted = true) := by
  rw [CallState.act] at h
  split at h
  · cases h
  · rename_i hCut
    cases h
    refine ⟨rfl, fun hShort => ?_⟩
    rw [hShort, Bool.true_and, Bool.not_eq_true', Bool.not_eq_false] at hCut
    exact hCut

theorem toolStep {tool : Tool} {answer : Except Thrown tool.Result} (h : CallInv call s g w k)
    (hAct : s.act call.parse moment (.tool tool) = some (answer, s₁)) :
    CallInv call { s₁ with trace := s.trace ++ [⟨index, .tool tool, answer⟩] } g
      { w with cut := w.cut || tool.cutShort answer } k := by
  obtain ⟨rfl, hAborted⟩ := tool_served hAct
  refine .recorded ?_ h.stills ?_ h.writer h.exit
  · refine ⟨h.upload.bytes, h.upload.completed, h.upload.whole, h.upload.stopping,
      h.upload.aborted, fun hCut => ?_, h.upload.seen⟩
    rcases Bool.or_eq_true_iff.mp hCut with hBefore | hNow
    · exact h.upload.truncated hBefore
    · exact h.upload.aborted (hAborted hNow)
  · have hTrace := h.trace.cutting (w.cut || tool.cutShort answer) fun hCut => by
      rw [hCut, Bool.true_or]
    cases hShort : tool.cutShort answer with
    | true =>
      rw [hShort] at hTrace
      rw [Request.mark, if_pos hShort]
      exact hTrace.push (by decide) (by decide) (by decide) (by decide)
        (fun _ => Bool.or_true _) nofun
    | false =>
      rw [hShort] at hTrace
      rw [Request.mark, if_neg (Bool.eq_false_iff.mp hShort)]
      exact hTrace.other

theorem writeStep {response : TranscribeResponse} {ok : Bool} (h : CallInv call s g w k)
    (hWorker : response.byWorker = true) (hIntact : response.isFinal = true → w.cut = false)
    (hEnded : w.ended = none) (hSource : w.source = none)
    (hAct : s.act call.parse moment (.write response) = some (ok, s₁)) :
    CallInv call { s₁ with trace := s.trace ++ [⟨index, .write response, ok⟩] } g
      { w with finals := w.finals + if response.isFinal then 1 else 0 } k := by
  obtain ⟨hReply, hState⟩ := Prod.mk.inj (Option.some.inj hAct)
  subst hState
  have hOpen := h.writer.opened hEnded
  rw [hSource] at hOpen
  have hBody : response.isBody = true ∧ keyframesOf [response] = [] := by
    cases response with
    | mediaInfo _ | partialSegment _ | finalSegment _ => exact ⟨rfl, rfl⟩
    | keyframe _ | complete _ | document _ | notSet => cases hWorker
  have hPending : k.pending =
      k.pending + UInt32.ofNat (if ok then (keyframesOf [response]).length else 0) := by
    rw [hBody.2, List.length_nil, ite_self]
    exact (UInt32.add_zero _).symm
  have hWritten := hOpen.write hBody.1 (Prod.ext hReply rfl) hPending
  refine .recorded h.upload h.stills ?_
    ⟨h.writer.folds, h.writer.named, fun _ => ?_, fun ok hOk => ?_⟩ h.exit
  · cases hFinal : response.isFinal with
    | true =>
      rw [Request.mark, if_pos hFinal]
      exact h.trace.decode (hIntact hFinal)
    | false =>
      rw [Request.mark, if_neg (Bool.eq_false_iff.mp hFinal)]
      exact h.trace.other
  · rw [hSource]
    exact hWritten
  · rw [hEnded] at hOk
    cases hOk

theorem finishStep {trailer : TranscriptComplete} {ok : Bool} (h : CallInv call s g w k)
    (hView : w.stills ≠ .running) (hEnded : w.ended = none) (hPolled : w.polled = some false)
    (hFolding : w.folding = some w.source.isSome)
    (hFinals : trailer.segmentCount = UInt32.ofNat w.finals)
    (hFrames : w.frames = some trailer.keyframeCount)
    (hAct : s.act call.parse moment (.finish trailer) = some (ok, s₁)) :
    CallInv call { s₁ with trace := s.trace ++ [⟨index, .finish trailer, ok⟩] } g
      { w with ended := some ok } k := by
  obtain ⟨hReply, hState⟩ := Prod.mk.inj (Option.some.inj hAct)
  subst hState
  have hStills : trailer.keyframeCount = s.stills.count + k.pending := by
    rw [h.stills.counted _ hFrames, h.stills.settled hView, UInt32.add_zero]
  have hClosed := (h.writer.opened hEnded).finish (Prod.ext hReply rfl)
    (h.writer.folds _ hFolding) (fun origin hOrigin => (h.writer.named origin hOrigin).2) hFinals
    hStills
  refine .recorded h.upload ?_ ?_ ⟨h.writer.folds, h.writer.named, nofun, fun ok hOk => ?_⟩
    fun status hStatus => ?_
  · exact ⟨h.stills.spawned, h.stills.waiting, h.stills.finished, h.stills.joined,
      fun hRunning => (hView hRunning).elim, h.stills.counted⟩
  · have hTrace := h.trace.other
    exact ⟨hTrace.stopped, hTrace.completed, hTrace.truncated, hTrace.quiet, hTrace.unstopped,
      hTrace.whole, fun _ => hPolled⟩
  · obtain rfl := Option.some.inj hOk
    exact hClosed
  · obtain ⟨hExited, hOk, hInvalid⟩ := h.exit status hStatus
    refine ⟨hExited, fun hIsOk => ?_, hInvalid⟩
    rw [hEnded] at hOk
    cases hOk hIsOk

theorem worker_step {Q : request.Answer → WorkerGhost → Prop} (h : CallInv call s g w k)
    (hPromise : workerPromise call.total request w Q)
    (hServed : s.serve call.parse moment index request = some (reply, s')) :
    ∃ w', Q reply w' ∧ CallInv call s' g w' k := by
  obtain ⟨s₁, hAct, rfl⟩ := serve_eq_some hServed
  cases request with
  | tool tool => exact ⟨_, hPromise reply, toolStep h hAct⟩
  | whisper buffer =>
    cases hAct
    obtain ⟨hIntact, hNext⟩ := hPromise
    exact ⟨_, hNext _, .recorded h.upload h.stills (h.trace.decode hIntact) h.writer h.exit⟩
  | waitForPrefix size =>
    obtain ⟨available, -, hReply⟩ := Option.map_eq_some_iff.mp hAct
    cases hReply
    exact ⟨_, hPromise _, h.noted rfl⟩
  | readAt offset size =>
    obtain ⟨data, -, hReply⟩ := Option.map_eq_some_iff.mp hAct
    cases hReply
    exact ⟨_, hPromise _, h.noted rfl⟩
  | waitComplete =>
    obtain ⟨_, -, hReply⟩ := Option.map_eq_some_iff.mp hAct
    cases hReply
    exact ⟨_, hPromise, h.noted rfl⟩
  | isAborted =>
    cases hAct
    exact ⟨_, hPromise _, h.noted rfl⟩
  | forwardStop =>
    cases hAct
    exact ⟨_, hPromise, .recorded h.upload h.stills h.trace.other h.writer h.exit⟩
  | stopKeyframes =>
    cases hAct
    exact ⟨_, hPromise, .recorded h.upload h.stills h.trace.other h.writer h.exit⟩
  | addAudioMs duration =>
    cases hAct
    exact ⟨_, hPromise, .recorded h.upload h.stills h.trace.other h.writer h.exit⟩
  | keyframeError =>
    cases hAct
    exact ⟨_, hPromise _, h.noted rfl⟩
  | forever => cases hAct
  | stopRequested poll =>
    cases hAct
    cases poll with
    | run => exact ⟨_, hPromise _ h.upload.truncated, h.noted rfl⟩
    | gone =>
      obtain ⟨hEnded, hRunning, hNext⟩ := hPromise
      refine ⟨_, hNext _ h.upload.truncated, .recorded h.upload h.stills (h.trace.check hEnded)
        h.writer fun status hStatus => ?_⟩
      have hExited := (h.exit status hStatus).1
      exact (Bool.false_ne_true (hRunning.symm.trans hExited)).elim
  | write response =>
    obtain ⟨hWorker, hIntact, hEnded, hSource, hNext⟩ := hPromise
    exact ⟨_, hNext reply, writeStep h hWorker hIntact hEnded hSource hAct⟩
  | folding =>
    cases hAct
    obtain ⟨hEnded, hNext⟩ := hPromise
    refine ⟨_, hNext _, .recorded h.upload h.stills h.trace.other
      ⟨fun seen hSeen => ?_, h.writer.named, h.writer.opened, h.writer.closed⟩ h.exit⟩
    rw [← Option.some.inj hSeen]
    exact (h.writer.opened hEnded).fold
  | isComplete =>
    cases hAct
    obtain ⟨hEnded, hComplete, hNext⟩ := hPromise
    refine ⟨_, hNext _, .recorded ⟨h.upload.bytes, h.upload.completed, h.upload.whole,
      h.upload.stopping, h.upload.aborted, h.upload.truncated, fun hSeen => Option.some.inj hSeen⟩
      h.stills h.trace.ask
      ⟨h.writer.folds, fun origin hOrigin => ?_, h.writer.opened, fun ok hOk => ?_⟩ h.exit⟩
    · have hAsked := (h.writer.named origin hOrigin).1
      rw [hComplete] at hAsked
      cases hAsked
    · rw [hEnded] at hOk
      cases hOk
  | completedBytes =>
    cases hAct
    refine ⟨_, hPromise _ fun hComplete => ?_, h.noted rfl⟩
    rw [h.upload.bytes]
    exact h.upload.whole (h.upload.completed.symm.trans (h.upload.seen hComplete))
  | setSource origin =>
    cases hAct
    obtain ⟨hView, hEnded, hSource, hComplete, hHash, hNext⟩ := hPromise
    have hOpen := h.writer.opened hEnded
    rw [hSource] at hOpen
    refine ⟨_, hNext, .recorded h.upload ?_ h.trace.other
      ⟨h.writer.folds, fun named hNamed => ?_, fun _ => hOpen.setSource origin, fun ok hOk => ?_⟩
      h.exit⟩
    · exact ⟨h.stills.spawned, h.stills.waiting, h.stills.finished, h.stills.joined,
        fun hRunning => (hView hRunning).elim, h.stills.counted⟩
    · obtain rfl := Option.some.inj hNamed
      exact ⟨hComplete, hHash⟩
    · rw [hEnded] at hOk
      cases hOk
  | keyframeCount =>
    cases hAct
    obtain ⟨hView, hNext⟩ := hPromise
    refine ⟨_, hNext _, .recorded h.upload ?_ h.trace.other h.writer h.exit⟩
    exact ⟨h.stills.spawned, h.stills.waiting, h.stills.finished, h.stills.joined,
      fun hRunning => (hView hRunning).elim, fun seen hSeen => (Option.some.inj hSeen).symm⟩
  | finish trailer =>
    obtain ⟨hView, hEnded, hPolled, hFolding, hFinals, hFrames, hNext⟩ := hPromise
    exact ⟨_, hNext reply, finishStep h hView hEnded hPolled hFolding hFinals hFrames hAct⟩
  | spawnKeyframes interval =>
    cases hAct
    obtain ⟨hAbsent, hEnded, hSource, hFrames, hNext⟩ := hPromise
    refine ⟨_, hNext, .recorded h.upload ?_ h.trace.other h.writer h.exit⟩
    exact ⟨⟨fun _ => nofun, fun _ => rfl⟩, nofun, h.stills.finished, nofun,
      fun _ => ⟨hSource, hFrames, hEnded⟩, h.stills.counted⟩
  | joinKeyframes =>
    rw [CallState.act] at hAct
    split at hAct
    · cases hAct
    · rename_i hJoined
      cases hAct
      refine ⟨_, hPromise, .recorded h.upload ?_ h.trace.other h.writer h.exit⟩
      dsimp only
      split
      · rename_i hRunning
        have hSpawned := h.stills.spawned.mpr (by rw [hRunning]; nofun)
        have hExited : s.stills.exited = true := by
          rw [hSpawned, Bool.true_and, Bool.not_eq_true', Bool.not_eq_false] at hJoined
          exact hJoined
        exact ⟨⟨fun _ => nofun, fun _ => hSpawned⟩, nofun, h.stills.finished,
          fun _ => h.stills.finished hExited, nofun, h.stills.counted⟩
      · exact h.stills
  | exitWorker status =>
    cases hAct
    obtain ⟨hOk, hInvalid, hNext⟩ := hPromise
    refine ⟨_, hNext, .recorded h.upload h.stills h.trace.other h.writer fun other hStatus => ?_⟩
    obtain rfl := Option.some.inj hStatus
    exact ⟨rfl, hOk, hInvalid⟩
  | uploadSize | append _ | complete | abort | requestStop | isCancelled | watchWorker | joinWorker
  | awaitSpawn | keyframeStopRequested | countKeyframe | exitKeyframes _ => exact hPromise.elim

end Steps

section Runs

/-- The ghost state of a thread of the call. -/
inductive Role
  | rpc (g : RpcGhost)
  | worker (w : WorkerGhost)
  | stills (k : StillsGhost)
  | idle

def callContract (total : Bytes) : Contract Request Request.Answer Role where
  holds request role Q :=
    match role with
    | .rpc g => rpcPromise total request g fun answer g' => Q answer (.rpc g')
    | .worker w => workerPromise total request w fun answer w' => Q answer (.worker w')
    | .stills k => stillsPromise request k fun answer k' => Q answer (.stills k')
    | .idle => False
  mono {request role P Q} hImp h := by
    cases role with
    | rpc g => exact rpcPromise_mono (fun answer g' => hImp answer (.rpc g')) h
    | worker w => exact workerPromise_mono (fun answer w' => hImp answer (.worker w')) h
    | stills k => exact stillsPromise_mono (fun answer k' => hImp answer (.stills k')) h
    | idle => exact h

def roles (g : RpcGhost) (w : WorkerGhost) (k : StillsGhost) : Nat → Role
  | 0 => .rpc g
  | 1 => .worker w
  | 2 => .stills k
  | _ => .idle

section Roles

variable (g : RpcGhost) (w : WorkerGhost) (k : StillsGhost)

/-- Three threads have a role; the others are idle. -/
theorem roles_ext {ghosts : Nat → Role} (hRpc : ghosts 0 = .rpc g) (hWorker : ghosts 1 = .worker w)
    (hStills : ghosts 2 = .stills k) (hIdle : ∀ index, ghosts (index + 3) = .idle) :
    ghosts = roles g w k := by
  funext index
  match index with
  | 0 => exact hRpc
  | 1 => exact hWorker
  | 2 => exact hStills
  | index + 3 => exact hIdle index

theorem update_rpc (g' : RpcGhost) : Function.update (roles g w k) 0 (.rpc g') = roles g' w k :=
  roles_ext g' w k rfl rfl rfl fun _ => rfl

theorem update_worker (w' : WorkerGhost) :
    Function.update (roles g w k) 1 (.worker w') = roles g w' k :=
  roles_ext g w' k rfl rfl rfl fun _ => rfl

theorem update_stills (k' : StillsGhost) :
    Function.update (roles g w k) 2 (.stills k') = roles g w k' :=
  roles_ext g w k' rfl rfl rfl fun _ => rfl

end Roles

variable (call : AsrCall)

def RolesInv (s : CallState) (ghosts : Nat → Role) : Prop :=
  ∃ g w k, ghosts = roles g w k ∧ CallInv call s g w k

theorem callMachine_sound :
    Pool.Sound (callMachine call.parse) (fun s (_ : Empty) => s) (callContract call.total)
      (RolesInv call) where
  serve {s s' ghosts index request reply Q} moment := by
    rintro ⟨g, w, k, rfl, hInv⟩ hHolds hServed
    match index, hHolds with
    | 0, hHolds =>
      obtain ⟨g', hNext, hInv'⟩ := rpc_step hInv hHolds hServed
      exact ⟨.rpc g', hNext, g', w, k, update_rpc g w k g', hInv'⟩
    | 1, hHolds =>
      obtain ⟨w', hNext, hInv'⟩ := worker_step hInv hHolds hServed
      exact ⟨.worker w', hNext, g, w', k, update_worker g w k w', hInv'⟩
    | 2, hHolds =>
      obtain ⟨k', hNext, hInv'⟩ := stills_step hInv hHolds hServed
      exact ⟨.stills k', hNext, g, w, k', update_stills g w k k', hInv'⟩
    | _ + 3, hHolds => exact False.elim hHolds
  move := nofun

theorem start_keeps :
    (⟨call.start, call.threads⟩ : Pool CallState Request Request.Answer (Option Verdict)).Keeps
      (callContract call.total) (RolesInv call) fun _ _ _ => True := by
  refine ⟨roles .initial .initial .waiting, ⟨_, _, _, rfl, start_inv call⟩, ?_⟩
  intro index thread hThread
  match index with
  | 0 =>
    obtain rfl := Option.some.inj hThread
    refine ((rpc_meets call.config call.messages).lift Role.rpc fun request g R h => ?_).imp
      fun _ _ _ => trivial
    exact rpcPromise_mono (fun _ g' hR => ⟨g', rfl, hR⟩) h
  | 1 =>
    obtain rfl := Option.some.inj hThread
    refine ((@worker_meets call.total call.config call.options call.rounds).lift Role.worker
      fun request w R h => ?_).imp fun _ _ _ => trivial
    exact workerPromise_mono (fun _ w' hR => ⟨w', rfl, hR⟩) h
  | 2 =>
    obtain rfl := Option.some.inj hThread
    refine ((stills_meets call.extraction).lift Role.stills fun request k R h => ?_).imp
      fun _ _ _ => trivial
    exact stillsPromise_mono (fun _ k' hR => ⟨k', rfl, hR⟩) h
  | _ + 3 => cases hThread

/-- The invariant holds after any turns. -/
theorem run_inv (turns : List (Turn Moment Empty)) :
    ∃ g w k, CallInv call (call.run turns).state g w k := by
  obtain ⟨ghosts, ⟨g, w, k, -, hInv⟩, -⟩ := (start_keeps call).run (callMachine_sound call) turns
  exact ⟨g, w, k, hInv⟩

end Runs

end GrpcAsr.Asr
