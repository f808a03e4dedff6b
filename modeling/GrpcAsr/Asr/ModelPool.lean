import Mathlib.Logic.Function.Basic
import GrpcAsr.Library.Parties
import GrpcAsr.Library.StdText
import GrpcAsr.Media.Messages

/-!
# The pool of model states

Every configured model is loaded once, with a fixed number of decoder states. A caller
takes a state from the free list of its model or waits for one, until its stream is gone
or its deadline passes, and gives the state back at the end of its lease. Every critical
section of an entry's mutex is one step, and so is every other call on the condition
variable; a waiting caller may also wake for no reason.
-/

namespace GrpcAsr.Asr

open Media (Bytes ascii)

set_option autoImplicit false

inductive Backend
  | cuda | openvino | cpu
  deriving DecidableEq

inductive PoolError
  | invalidArgument (what : Bytes)
  | runtimeError (what : Bytes)
  | cancelled (what : Bytes)
  | queueTimeout (what : Bytes)
  deriving DecidableEq

/-- The weight file of a name: there is none, or its size, which is zero where the file does
not open, and what reading that much gives. -/
inductive WeightFile
  | missing
  | sized (size : Nat) (read : Option Bytes)

/-- The models directory and the native library: the directory's file names or why it cannot
be listed, its files, and what loading a model and allocating its states give. -/
structure ModelNative (State : Type) where
  listing : Except Bytes (List Bytes)
  weights : Bytes → WeightFile
  sha256 : Bytes → Bytes
  cudaRegistered : Bool
  availableBackends : Bytes
  initContext : Bytes → Bool
  initState : Bytes → Nat → Option State
  initEncoder : Bytes → State → Bool

structure PoolConfig where
  backend : Backend
  openvinoDevice : Bytes
  modelsDir : Bytes
  models : List Bytes
  concurrency : Nat

def kOpenvinoEncoderSuffix : Bytes := ascii "-encoder-openvino.bin"

/-- The file name of the weights of a model. -/
def weightFileName (name : Bytes) : Bytes := ascii "ggml-" ++ name ++ ascii ".bin"

/-- `std::filesystem::path::operator/` for a relative right side. -/
def pathJoin (dir name : Bytes) : Bytes :=
  if dir.isEmpty || dir.getLast? == some 47 then dir ++ name else dir ++ 47 :: name

def modelPath (modelsDir name : Bytes) : Bytes := pathJoin modelsDir (weightFileName name)

/-- The name of the model in a weight file; a name with the prefix `ggml-` has the extension
`.bin` exactly if it ends in it. -/
def discoveredName (filename : Bytes) : Option Bytes :=
  if !(ascii "ggml-").isPrefixOf filename || !(ascii ".bin").isSuffixOf filename then none
  else if kOpenvinoEncoderSuffix.isSuffixOf filename then none
  else some ((filename.drop 5).take (filename.length - 5 - 4))

def discoverModels (modelsDir : Bytes) (listing : Except Bytes (List Bytes)) :
    Except PoolError (List Bytes) :=
  match listing with
  | .error message =>
    .error (.invalidArgument
      (ascii "GRPC_ASR_MODELS_DIR=" ++ modelsDir ++ ascii " cannot be listed: " ++ message))
  | .ok files =>
    let names := files.filterMap discoveredName
    if names.isEmpty then
      .error (.invalidArgument (ascii "no ggml-*.bin model files in " ++ modelsDir ++
        ascii " and GRPC_ASR_MODELS is unset"))
    else .ok names

structure PoolEntry (State : Type) where
  hash : Bytes
  freeStates : List State
  allStates : List State

/-- The loaded models by name. -/
abbrev PoolEntries (State : Type) := Bytes → Option (PoolEntry State)

namespace ModelNative

variable {State : Type} (native : ModelNative State) (config : PoolConfig)

def checkBackend : Except PoolError Unit :=
  if config.backend = .cuda ∧ native.cudaRegistered = false then
    .error (.invalidArgument (ascii "GRPC_ASR_BACKEND=cuda: this build has no CUDA backend (available: " ++
      (native.availableBackends) ++ ascii "); build with -DGRPC_ASR_CUDA=ON on a CUDA host"))
  else .ok ()

/-- One round of the loop over the states. -/
def allocateState (name : Bytes) (i : Nat) : Except PoolError State :=
  match native.initState name i with
  | none =>
    .error (.runtimeError (ascii "allocating state " ++ StdText.decimal i ++ ascii " for model '" ++
      name ++ ascii "' failed"))
  | some state =>
    if config.backend = .openvino ∧ native.initEncoder name state = false then
      .error (.runtimeError (ascii
        "GRPC_ASR_BACKEND=openvino: OpenVINO encoder init failed for model '" ++ name ++
        ascii "' on device '" ++ config.openvinoDevice ++
        ascii ("' (GRPC_ASR_OPENVINO_DEVICE); use an image built with " ++
          "-DGRPC_ASR_OPENVINO=ON, a converted encoder model next to the " ++
          "weights, and a device this host has")))
    else .ok state

def initStates (name : Bytes) : Except PoolError (List State) :=
  (List.range config.concurrency).mapM (native.allocateState config name)

def loadModel (name : Bytes) : Except PoolError (PoolEntry State) :=
  let path := modelPath config.modelsDir name
  match native.weights (weightFileName name) with
  | .missing =>
    .error (.invalidArgument (ascii "model '" ++ name ++ ascii "' has no weight file at " ++ path))
  | .sized size read =>
    if size = 0 ∨ 8589934592 < size then
      .error (.runtimeError (ascii "invalid model file size"))
    else
      match read with
      | none => .error (.runtimeError (ascii "cannot read model weights"))
      | some data =>
        if native.initContext data = false then
          .error (.runtimeError
            (ascii "loading model '" ++ name ++ ascii "' from " ++ path ++ ascii " failed"))
        else do
          let states ← native.initStates config name
          return ⟨native.sha256 data, states, states⟩

def loadInto (entries : PoolEntries State) (name : Bytes) : Except PoolError (PoolEntries State) := do
  let entry ← native.loadModel config name
  return Function.update entries name (some entry)

/-- The constructor of the pool. -/
def createPool : Except PoolError (PoolEntries State) := do
  native.checkBackend config
  let names ←
    if config.models.isEmpty then discoverModels config.modelsDir native.listing
    else .ok config.models
  names.foldlM (native.loadInto config) fun _ => none

end ModelNative

/-- One call of `acquire`; a call without a deadline has the latest time point. -/
structure AcquireCall where
  model : Bytes
  watchesStop : Bool
  deadline : Option Nat

/-- One turn of the loop of a wait: what the wait returns, unless the caller goes to sleep. -/
def waitTurn (stop timedOut stateFree : Bool) : Option Bool :=
  if timedOut || stop then some stateFree
  else if stateFree then some true
  else none

inductive Acquired (State : Type)
  | leased (state : State)
  | failed (error : PoolError)
  | waiting

namespace PoolEntries

variable {State : Type} (entries : PoolEntries State)

def free (model : Bytes) : List State := (entries model).elim [] PoolEntry.freeStates

/-- The critical section of `acquire`, entered by the call or after a wait. -/
def acquireTurn (call : AcquireCall) (stop timedOut : Bool) : Acquired State × PoolEntries State :=
  match entries call.model with
  | none =>
    (.failed (.invalidArgument (ascii "model '" ++ call.model ++ ascii "' is not loaded")), entries)
  | some entry =>
    match waitTurn stop timedOut (!entry.freeStates.isEmpty), entry.freeStates with
    | some true, state :: rest =>
      (.leased state, Function.update entries call.model (some { entry with freeStates := rest }))
    | some _, _ =>
      if stop then
        (.failed (.cancelled (ascii "the stream went away while waiting for a '" ++ call.model ++
          ascii "' state")), entries)
      else
        (.failed (.queueTimeout (ascii "every '" ++ call.model ++ ascii "' state stayed busy")),
          entries)
    | none, _ => (.waiting, entries)

def release (model : Bytes) (state : State) : PoolEntries State :=
  match entries model with
  | none => entries
  | some entry =>
    Function.update entries model (some { entry with freeStates := entry.freeStates ++ [state] })

end PoolEntries

/-- Where a caller stands between two steps. -/
inductive Caller (State : Type)
  | idle
  | asleep (call : AcquireCall)
  | woken (call : AcquireCall) (timedOut : Bool)
  | leasing (model : Bytes) (state : State)
  | notifying (model : Bytes)
  | refused (call : AcquireCall) (error : PoolError)

namespace Caller

variable {State : Type}

def asleepOn (model : Bytes) : Caller State → Bool
  | .asleep call => call.model == model
  | _ => false

/-- The caller will look at the free list again, or still has to wake another. -/
def alertOn (model : Bytes) : Caller State → Bool
  | .woken call _ => call.model == model
  | .notifying model' => model' == model
  | _ => false

def lease (model : Bytes) : Caller State → List State
  | .leasing model' state => if model' = model then [state] else []
  | _ => []

end Caller

structure PoolSystem (State : Type) where
  entries : PoolEntries State
  callers : List (Caller State)
  stopped : Nat → Bool
  now : Nat

inductive PoolAction
  | acquire (i : Nat) (call : AcquireCall)
  | rouse (i : Nat) (expired : Bool)
  | retry (i : Nat)
  | release (i : Nat)
  | notifyOne (i : Nat) (chosen : Option Nat)
  | requestStop (i : Nat)
  | tick

namespace PoolSystem

variable {State : Type}

def start (entries : PoolEntries State) (callers : Nat) : PoolSystem State :=
  ⟨entries, List.replicate callers .idle, fun _ => false, 0⟩

variable (s : PoolSystem State)

def move (i : Nat) (caller : Caller State) : PoolSystem State :=
  { s with callers := s.callers.set i caller }

def stopSeen (i : Nat) (call : AcquireCall) : Bool := call.watchesStop && s.stopped i

def attempt (i : Nat) (call : AcquireCall) (timedOut : Bool) : PoolSystem State :=
  let turn := s.entries.acquireTurn call (s.stopSeen i call) timedOut
  let caller : Caller State :=
    match turn.1 with
    | .leased state => .leasing call.model state
    | .failed error => .refused call error
    | .waiting => .asleep call
  { s with entries := turn.2, callers := s.callers.set i caller }

/-- A step, unless it cannot be taken now. A wait ends by its deadline only once that has
passed, and one sleeper is woken whenever there is one. -/
def step : PoolAction → Option (PoolSystem State)
  | .acquire i call =>
    match s.callers[i]? with
    | some .idle | some (.refused _ _) => some (s.attempt i call false)
    | _ => none
  | .rouse i expired =>
    match s.callers[i]? with
    | some (.asleep call) =>
      if expired && !call.deadline.any (fun deadline => decide (deadline ≤ s.now)) then none
      else some (s.move i (.woken call expired))
    | _ => none
  | .retry i =>
    match s.callers[i]? with
    | some (.woken call timedOut) => some (s.attempt i call timedOut)
    | _ => none
  | .release i =>
    match s.callers[i]? with
    | some (.leasing model state) =>
      some { s.move i (.notifying model) with entries := s.entries.release model state }
    | _ => none
  | .notifyOne i chosen =>
    match s.callers[i]? with
    | some (.notifying model) =>
      match chosen with
      | none => if s.callers.any (Caller.asleepOn model) then none else some (s.move i .idle)
      | some j =>
        match s.callers[j]? with
        | some (.asleep call) =>
          if call.model = model then some ((s.move i .idle).move j (.woken call false)) else none
        | _ => none
    | _ => none
  | .requestStop i =>
    let s' := { s with stopped := Function.update s.stopped i true }
    match s.callers[i]? with
    | some (.asleep call) => some (if call.watchesStop then s'.move i (.woken call false) else s')
    | _ => some s'
  | .tick => some { s with now := s.now + 1 }

def run (actions : List PoolAction) : PoolSystem State := Parties.run step s actions

end PoolSystem

end GrpcAsr.Asr
