import GrpcAsr.Asr.Service

/-!
# What each thread of a call relies on

Every thread has a ghost state of its own. The worker's counts the finals it has
written, follows the keyframe thread it may have started, and remembers what the checks
before the trailer told it. The contract says what a request assumes of that state and
what it leaves; the threads keep it, whatever they are answered.
-/

namespace GrpcAsr.Asr

set_option autoImplicit false

open Interaction
open Media (Bytes ascii Status StatusCode)

/-- The keyframe thread as the worker sees it. -/
inductive StillsView
  | absent
  | running
  | joined
  deriving DecidableEq

structure WorkerGhost where
  finals : Nat
  stills : StillsView
  cut : Bool
  polled : Option Bool
  folding : Option Bool
  complete : Option Bool
  source : Option DocumentOrigin
  frames : Option UInt32
  ended : Option Bool
  exited : Bool

structure RpcGhost where
  appended : Bytes
  completed : Bool
  stopping : Bool

inductive StillsGhost
  | waiting
  | running (pending : Bool)
  | exited
  deriving DecidableEq

def TranscribeResponse.isFinal (response : TranscribeResponse) : Bool := response.final?.isSome

/-- The events the worker writes on its way. -/
def TranscribeResponse.byWorker : TranscribeResponse → Bool
  | .mediaInfo _ | .partialSegment _ | .finalSegment _ => true
  | _ => false

/-- The hash that goes with what the upload said of itself. -/
def hashFor (total : Bytes) : Option Bool → UInt64
  | some true => contentHash total
  | _ => 0

section Promises

variable (total : Bytes)

def workerPromise : (request : Request) → WorkerGhost → (request.Answer → WorkerGhost → Prop) → Prop
  | .tool tool, w, Q => ∀ answer, Q answer { w with cut := w.cut || tool.cutShort answer }
  | .whisper _, w, Q => w.cut = false ∧ ∀ answer, Q answer w
  | .waitForPrefix _, w, Q => ∀ answer, Q answer w
  | .readAt _ _, w, Q => ∀ answer, Q answer w
  | .waitComplete, w, Q => Q () w
  | .isAborted, w, Q => ∀ answer, Q answer w
  | .forwardStop, w, Q => Q () w
  | .stopKeyframes, w, Q => Q () w
  | .keyframeError, w, Q => ∀ answer, Q answer w
  | .addAudioMs _, w, Q => Q () w
  | .forever, _, _ => True
  | .stopRequested .run, w, Q => ∀ answer, (w.cut = true → answer = true) → Q answer w
  | .stopRequested .gone, w, Q =>
    w.ended = none ∧ w.exited = false ∧
      ∀ answer, (w.cut = true → answer = true) → Q answer { w with polled := some answer }
  | .write response, w, Q =>
    response.byWorker = true ∧ (response.isFinal = true → w.cut = false) ∧ w.ended = none ∧
      w.source = none ∧
      ∀ answer, Q answer { w with finals := w.finals + if response.isFinal then 1 else 0 }
  | .folding, w, Q => w.ended = none ∧ ∀ answer, Q answer { w with folding := some answer }
  | .isComplete, w, Q =>
    w.ended = none ∧ w.complete = none ∧ ∀ answer, Q answer { w with complete := some answer }
  | .completedBytes, w, Q => ∀ answer, (w.complete = some true → answer = total) → Q answer w
  | .setSource origin, w, Q =>
    w.stills ≠ .running ∧ w.ended = none ∧ w.source = none ∧ w.complete.isSome = true ∧
      origin.binaryHash = hashFor total w.complete ∧ Q () { w with source := some origin }
  | .keyframeCount, w, Q =>
    w.stills ≠ .running ∧ ∀ answer, Q answer { w with frames := some answer }
  | .finish trailer, w, Q =>
    w.stills ≠ .running ∧ w.ended = none ∧ w.polled = some false ∧
      w.folding = some w.source.isSome ∧ trailer.segmentCount = UInt32.ofNat w.finals ∧
      w.frames = some trailer.keyframeCount ∧ ∀ answer, Q answer { w with ended := some answer }
  | .spawnKeyframes _, w, Q =>
    w.stills = .absent ∧ w.ended = none ∧ w.source = none ∧ w.frames = none ∧
      Q () { w with stills := .running }
  | .joinKeyframes, w, Q =>
    Q () { w with stills := if w.stills = .running then .joined else w.stills }
  | .exitWorker status, w, Q =>
    (status.isOk = true → w.ended = some true) ∧
      (status.code = .invalidArgument → w.polled = some false) ∧ Q () { w with exited := true }
  | _, _, _ => False

def rpcPromise : (request : Request) → RpcGhost → (request.Answer → RpcGhost → Prop) → Prop
  | .uploadSize, g, Q => ∀ answer, Q answer g
  | .isCancelled, g, Q => ∀ answer, Q answer g
  | .watchWorker, g, Q => ∀ answer, Q answer g
  | .joinWorker, g, Q => ∀ answer, Q answer g
  | .append data, g, Q =>
    g.completed = false ∧ Q () { g with appended := g.appended ++ data }
  | .complete, g, Q => g.appended = total ∧ Q () { g with completed := true }
  | .requestStop, g, Q => Q () { g with stopping := true }
  | .abort, g, Q => g.stopping = true ∧ Q () g
  | _, _, _ => False

end Promises

def stillsPromise : (request : Request) → StillsGhost → (request.Answer → StillsGhost → Prop) → Prop
  | .awaitSpawn, k, Q => k = .waiting ∧ ∀ answer, Q answer (.running false)
  | .keyframeStopRequested, k, Q => ∀ answer, Q answer k
  | .write (.keyframe _), k, Q => k = .running false ∧ ∀ answer, Q answer (.running answer)
  | .countKeyframe, k, Q => k = .running true ∧ Q () (.running false)
  | .exitKeyframes _, k, Q => k = .running false ∧ Q () .exited
  | _, _, _ => False

theorem workerPromise_mono {total : Bytes} {request : Request} {w : WorkerGhost}
    {P Q : request.Answer → WorkerGhost → Prop} (hImp : ∀ answer w', P answer w' → Q answer w')
    (h : workerPromise total request w P) : workerPromise total request w Q := by
  unfold workerPromise at h ⊢
  split at h <;> grind

theorem rpcPromise_mono {total : Bytes} {request : Request} {g : RpcGhost}
    {P Q : request.Answer → RpcGhost → Prop} (hImp : ∀ answer g', P answer g' → Q answer g')
    (h : rpcPromise total request g P) : rpcPromise total request g Q := by
  unfold rpcPromise at h ⊢
  split at h <;> grind

theorem stillsPromise_mono {request : Request} {k : StillsGhost}
    {P Q : request.Answer → StillsGhost → Prop} (hImp : ∀ answer k', P answer k' → Q answer k')
    (h : stillsPromise request k P) : stillsPromise request k Q := by
  unfold stillsPromise at h ⊢
  split at h <;> grind

def workerContract (total : Bytes) : Contract Request Request.Answer WorkerGhost :=
  ⟨workerPromise total, workerPromise_mono⟩

def rpcContract (total : Bytes) : Contract Request Request.Answer RpcGhost :=
  ⟨rpcPromise total, rpcPromise_mono⟩

def stillsContract : Contract Request Request.Answer StillsGhost :=
  ⟨stillsPromise, stillsPromise_mono⟩

end GrpcAsr.Asr
