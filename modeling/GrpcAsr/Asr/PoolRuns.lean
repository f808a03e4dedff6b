import GrpcAsr.Asr.ModelPool
import GrpcAsr.Library.Parties
import GrpcAsr.Library.Wakeups

/-!
# Runs of the model pool

What one step of the pool can do is said once, and every fact about its runs follows from
that: the states of a model are always either free or leased to one caller, no caller sleeps
next to a free state that nobody looks after, and a refused call had a reason.
-/

namespace GrpcAsr.Asr

open Media (Bytes ascii)

set_option autoImplicit false

variable {State : Type}

/-! ## Loading -/

namespace ModelNative

variable {native : ModelNative State} {config : PoolConfig} {name : Bytes}

/-- What is true of every entry that was loaded. -/
structure Loaded (native : ModelNative State) (config : PoolConfig) (name : Bytes)
    (entry : PoolEntry State) : Prop where
  free : entry.freeStates = entry.allStates
  states : entry.allStates.map some = (List.range config.concurrency).map (native.initState name)

theorem allocateState_ok {i : Nat} {state : State}
    (h : native.allocateState config name i = .ok state) :
    native.initState name i = some state := by
  unfold allocateState at h
  split at h
  · cases h
  next given hGiven =>
    split at h
    · cases h
    · obtain rfl := Except.ok.inj h
      exact hGiven

theorem states_of_initStates {indices : List Nat} {states : List State}
    (h : indices.mapM (native.allocateState config name) = .ok states) :
    states.map some = indices.map (native.initState name) := by
  induction indices generalizing states with
  | nil =>
    obtain rfl : [] = states := Except.ok.inj h
    rfl
  | cons i indices ih =>
    rw [List.mapM_cons] at h
    simp only [bind, Except.bind] at h
    split at h
    · cases h
    next state hState =>
      split at h
      · cases h
      next rest hRest =>
        obtain rfl : state :: rest = states := Except.ok.inj h
        rw [List.map_cons, List.map_cons, allocateState_ok hState, ih hRest]

theorem loaded_of_loadModel {entry : PoolEntry State}
    (h : native.loadModel config name = .ok entry) : Loaded native config name entry := by
  unfold loadModel at h
  split at h
  · cases h
  · split at h
    · cases h
    · split at h
      · cases h
      · split at h
        · cases h
        · simp only [bind, Except.bind] at h
          split at h
          · cases h
          next states hStates =>
            obtain rfl := Except.ok.inj h
            exact ⟨rfl, states_of_initStates hStates⟩

theorem loaded_of_loadInto {names : List Bytes} {entries entries' : PoolEntries State}
    (hEntries : ∀ name entry, entries name = some entry → Loaded native config name entry)
    (h : names.foldlM (native.loadInto config) entries = .ok entries') :
    ∀ name entry, entries' name = some entry → Loaded native config name entry := by
  induction names generalizing entries with
  | nil =>
    obtain rfl : entries = entries' := Except.ok.inj h
    exact hEntries
  | cons first names ih =>
    rw [List.foldlM_cons] at h
    simp only [bind, Except.bind] at h
    split at h
    · cases h
    next next hNext =>
      refine ih ?_ h
      unfold loadInto at hNext
      simp only [bind, Except.bind] at hNext
      split at hNext
      · cases hNext
      next loaded hLoaded =>
        obtain rfl := Except.ok.inj hNext
        intro name entry hEntry
        by_cases hName : name = first
        · subst hName
          rw [Function.update_self] at hEntry
          obtain rfl := Option.some.inj hEntry
          exact loaded_of_loadModel hLoaded
        · rw [Function.update_of_ne hName] at hEntry
          exact hEntries name entry hEntry

theorem loaded_of_createPool {entries : PoolEntries State}
    (h : native.createPool config = .ok entries) :
    ∀ name entry, entries name = some entry → Loaded native config name entry := by
  unfold createPool at h
  simp only [bind, Except.bind] at h
  split at h
  · cases h
  · have hNames : ∃ names : List Bytes, names.foldlM (native.loadInto config) (fun _ => none) = .ok entries := by
      split at h
      · split at h
        · cases h
        · exact ⟨_, h⟩
      · exact ⟨_, h⟩
    obtain ⟨names, hNames⟩ := hNames
    exact loaded_of_loadInto (fun _ _ hNone => absurd hNone (Option.some_ne_none _).symm) hNames

theorem Loaded.length {entry : PoolEntry State} (h : Loaded native config name entry) :
    entry.allStates.length = config.concurrency := by
  have hLength := congrArg List.length h.states
  rwa [List.length_map, List.length_map, List.length_range] at hLength

/-- States that were allocated one by one are all different. -/
theorem Loaded.nodup {entry : PoolEntry State} (h : Loaded native config name entry)
    (hFresh : ∀ i j state, native.initState name i = some state →
      native.initState name j = some state → i = j) : entry.allStates.Nodup := by
  refine List.Nodup.of_map some ?_
  rw [h.states]
  refine List.Nodup.map_on ?_ List.nodup_range
  intro i hi j hj hEq
  have hSome : native.initState name i ∈ entry.allStates.map some := by
    rw [h.states]
    exact List.mem_map_of_mem hi
  obtain ⟨state, -, hState⟩ := List.mem_map.mp hSome
  exact hFresh i j state hState.symm (hEq ▸ hState.symm)

end ModelNative

/-! ## One step -/

namespace PoolSystem

variable {s : PoolSystem State}

/-- What the critical section of `acquire` comes to. -/
inductive Attempted (s : PoolSystem State) (i : Nat) (call : AcquireCall) (timedOut : Bool) :
    PoolSystem State → Prop
  | unknown (hEntry : s.entries call.model = none) (what : Bytes) :
    Attempted s i call timedOut (s.move i (.refused call (.invalidArgument what)))
  | leased (entry : PoolEntry State) (hEntry : s.entries call.model = some entry) (state : State)
      (rest : List State) (hFree : entry.freeStates = state :: rest) :
    Attempted s i call timedOut
      { s.move i (.leasing call.model state) with
        entries := Function.update s.entries call.model (some { entry with freeStates := rest }) }
  | cancelled (entry : PoolEntry State) (hEntry : s.entries call.model = some entry)
      (hFree : entry.freeStates = []) (hStop : s.stopSeen i call = true) (what : Bytes) :
    Attempted s i call timedOut (s.move i (.refused call (.cancelled what)))
  | expired (entry : PoolEntry State) (hEntry : s.entries call.model = some entry)
      (hFree : entry.freeStates = []) (hStop : s.stopSeen i call = false) (hOut : timedOut = true)
      (what : Bytes) :
    Attempted s i call timedOut (s.move i (.refused call (.queueTimeout what)))
  | waiting (entry : PoolEntry State) (hEntry : s.entries call.model = some entry)
      (hFree : entry.freeStates = []) :
    Attempted s i call timedOut (s.move i (.asleep call))

theorem attempt_cases (i : Nat) (call : AcquireCall) (timedOut : Bool) :
    Attempted s i call timedOut (s.attempt i call timedOut) := by
  unfold attempt PoolEntries.acquireTurn
  cases hEntry : s.entries call.model with
  | none => exact .unknown hEntry _
  | some entry =>
    cases hFree : entry.freeStates with
    | nil =>
      cases hStop : s.stopSeen i call with
      | true =>
        have hTurn : waitTurn true timedOut (!([] : List State).isEmpty) = some false := by
          cases timedOut <;> rfl
        simp only [hFree, hTurn]
        exact .cancelled entry hEntry hFree hStop _
      | false =>
        cases timedOut with
        | true =>
          have hTurn : waitTurn false true (!([] : List State).isEmpty) = some false := rfl
          simp only [hFree, hTurn]
          exact .expired entry hEntry hFree hStop rfl _
        | false =>
          have hTurn : waitTurn false false (!([] : List State).isEmpty) = none := rfl
          simp only [hFree, hTurn]
          exact .waiting entry hEntry hFree
    | cons state rest =>
      have hTurn : waitTurn (s.stopSeen i call) timedOut (!(state :: rest).isEmpty) = some true := by
        cases hStop : s.stopSeen i call <;> cases timedOut <;> rfl
      simp only [hFree, hTurn]
      exact .leased entry hEntry state rest hFree

/-- What a step can be. -/
inductive Moved (s : PoolSystem State) : PoolSystem State → Prop
  | entered (i : Nat) (call : AcquireCall) (caller : Caller State) (h : s.callers[i]? = some caller)
      (hOut : caller = .idle ∨ ∃ call' error, caller = .refused call' error)
      (s' : PoolSystem State) (hTo : Attempted s i call false s') : Moved s s'
  | retried (i : Nat) (call : AcquireCall) (timedOut : Bool)
      (h : s.callers[i]? = some (.woken call timedOut))
      (s' : PoolSystem State) (hTo : Attempted s i call timedOut s') : Moved s s'
  | roused (i : Nat) (call : AcquireCall) (timedOut : Bool) (stopped : Nat → Bool)
      (h : s.callers[i]? = some (.asleep call))
      (hDue : timedOut = true → ∃ deadline, call.deadline = some deadline ∧ deadline ≤ s.now) :
    Moved s { s.move i (.woken call timedOut) with stopped }
  | released (i : Nat) (model : Bytes) (state : State)
      (h : s.callers[i]? = some (.leasing model state)) :
    Moved s { s.move i (.notifying model) with entries := s.entries.release model state }
  | unheard (i : Nat) (model : Bytes) (h : s.callers[i]? = some (.notifying model))
      (hNone : s.callers.countP (Caller.asleepOn model) = 0) : Moved s (s.move i .idle)
  | notified (i j : Nat) (model : Bytes) (call : AcquireCall)
      (h : s.callers[i]? = some (.notifying model)) (hChosen : s.callers[j]? = some (.asleep call))
      (hModel : call.model = model) : Moved s ((s.move i .idle).move j (.woken call false))
  | outside (stopped : Nat → Bool) (now : Nat) (hNow : s.now ≤ now) :
    Moved s { s with stopped, now }

variable {s' : PoolSystem State}

theorem step_cases {action : PoolAction} (h : s.step action = some s') : Moved s s' := by
  cases action with
  | acquire i call =>
    simp only [step] at h
    split at h
    next hCaller =>
      obtain rfl := Option.some.inj h
      exact .entered i call _ hCaller (.inl rfl) _ (attempt_cases i call false)
    next call' error hCaller =>
      obtain rfl := Option.some.inj h
      exact .entered i call _ hCaller (.inr ⟨call', error, rfl⟩) _ (attempt_cases i call false)
    · cases h
  | rouse i expired =>
    simp only [step] at h
    split at h
    next call hCaller =>
      split at h
      · cases h
      next hDue =>
        obtain rfl := Option.some.inj h
        refine .roused i call expired s.stopped hCaller ?_
        rintro rfl
        simpa [Option.any_eq_true] using hDue
    · cases h
  | retry i =>
    simp only [step] at h
    split at h
    next call timedOut hCaller =>
      obtain rfl := Option.some.inj h
      exact .retried i call timedOut hCaller _ (attempt_cases i call timedOut)
    · cases h
  | release i =>
    simp only [step] at h
    split at h
    next model state hCaller =>
      obtain rfl := Option.some.inj h
      exact .released i model state hCaller
    · cases h
  | notifyOne i chosen =>
    simp only [step] at h
    split at h
    next model hCaller =>
      cases chosen with
      | none =>
        simp only at h
        split at h
        · cases h
        next hNone =>
          obtain rfl := Option.some.inj h
          refine .unheard i model hCaller (List.countP_eq_zero.mpr fun caller hMem hAsleep => ?_)
          exact hNone (List.any_eq_true.mpr ⟨caller, hMem, hAsleep⟩)
      | some j =>
        simp only at h
        split at h
        next call hChosen =>
          split at h
          next hModel =>
            obtain rfl := Option.some.inj h
            exact .notified i j model call hCaller hChosen hModel
          · cases h
        · cases h
    · cases h
  | requestStop i =>
    simp only [step] at h
    split at h
    next call hCaller =>
      obtain rfl := Option.some.inj h
      split
      · exact .roused i call false _ hCaller (fun hTrue => absurd hTrue Bool.false_ne_true)
      · exact .outside _ _ (Nat.le_refl s.now)
    · obtain rfl := Option.some.inj h
      exact .outside _ _ (Nat.le_refl s.now)
  | tick =>
    obtain rfl := Option.some.inj h
    exact .outside _ _ (Nat.le_succ s.now)

/-- What every step keeps holds after every run. -/
theorem run_keeps {P : PoolSystem State → Prop} (hStart : P s)
    (hStep : ∀ s s', P s → Moved s s' → P s') (actions : List PoolAction) : P (s.run actions) :=
  Parties.run_induction hStart (fun s _ s' hBefore hTaken => hStep s s' hBefore (step_cases hTaken))
    actions

/-! ## Free states and leases -/

/-- The states of a model are the free ones and the leased ones, each once. -/
structure Accounted (loaded : PoolEntries State) (model : Bytes) (s : PoolSystem State) : Prop where
  kept : (s.entries model).map PoolEntry.allStates = (loaded model).map PoolEntry.allStates
  states : ∀ entry, s.entries model = some entry →
    (entry.freeStates ++ Parties.held (Caller.lease model) s.callers).Perm entry.allStates

variable {loaded : PoolEntries State} {model : Bytes} {i : Nat} {caller : Caller State}

/-- A caller that moves exchanges what it held for what it holds from then on. -/
theorem Accounted.exchange (hAccounted : Accounted loaded model s) (h : s.callers[i]? = some caller)
    {next : Caller State} {entries : PoolEntries State} {entry : PoolEntry State} (free : List State)
    (hEntry : s.entries model = some entry)
    (hNext : entries model = some { entry with freeStates := free })
    (hPerm : (free ++ next.lease model).Perm (entry.freeStates ++ caller.lease model)) :
    Accounted loaded model ⟨entries, s.callers.set i next, s.stopped, s.now⟩ := by
  refine ⟨?_, fun entry' hEntry' => ?_⟩
  · rw [← hAccounted.kept, hEntry]
    show (entries model).map PoolEntry.allStates = _
    rw [hNext]
    rfl
  · obtain rfl := Option.some.inj (hNext.symm.trans hEntry')
    exact (Parties.held_exchange _ h hPerm).trans (hAccounted.states entry hEntry)

/-- A caller that neither held nor holds a state of the model changes nothing. -/
theorem Accounted.elsewhere (hAccounted : Accounted loaded model s)
    (h : s.callers[i]? = some caller) (hLease : caller.lease model = []) {next : Caller State}
    (hNext : next.lease model = []) {entries : PoolEntries State}
    (hEntries : entries model = s.entries model) :
    Accounted loaded model { s.move i next with entries } := by
  refine ⟨(congrArg (Option.map PoolEntry.allStates) hEntries).trans hAccounted.kept, fun entry hEntry => ?_⟩
  have hSet := Parties.held_set (Caller.lease model) h next
  rw [hLease, hNext, List.append_nil, List.append_nil] at hSet
  exact (hSet.append_left _).trans (hAccounted.states entry (hEntries.symm.trans hEntry))

theorem Accounted.move (hAccounted : Accounted loaded model s) (h : s.callers[i]? = some caller)
    (hLease : caller.lease model = []) (next : Caller State) (hNext : next.lease model = []) :
    Accounted loaded model (s.move i next) := hAccounted.elsewhere h hLease hNext rfl

theorem Accounted.attempted (hAccounted : Accounted loaded model s) {call : AcquireCall}
    {timedOut : Bool} (h : s.callers[i]? = some caller) (hLease : caller.lease model = [])
    (hTo : Attempted s i call timedOut s') : Accounted loaded model s' := by
  cases hTo with
  | unknown => exact hAccounted.move h hLease _ rfl
  | cancelled => exact hAccounted.move h hLease _ rfl
  | expired => exact hAccounted.move h hLease _ rfl
  | waiting => exact hAccounted.move h hLease _ rfl
  | leased entry hEntry state rest hFree =>
    by_cases hModel : call.model = model
    · subst hModel
      have hOne : (Caller.leasing call.model state).lease call.model = [state] := if_pos rfl
      refine hAccounted.exchange h rest hEntry (Function.update_self ..) ?_
      rw [hOne, hLease, hFree, List.append_nil]
      exact List.perm_append_comm
    · have hNone : (Caller.leasing call.model state).lease model = [] := if_neg hModel
      exact hAccounted.elsewhere h hLease hNone (Function.update_of_ne (Ne.symm hModel) _ _)

theorem Accounted.released (hAccounted : Accounted loaded model s) {model' : Bytes} {state : State}
    (h : s.callers[i]? = some (.leasing model' state)) :
    Accounted loaded model
      { s.move i (.notifying model') with entries := s.entries.release model' state } := by
  by_cases hModel : model' = model
  · subst hModel
    have hOne : (Caller.leasing model' state).lease model' = [state] := if_pos rfl
    cases hEntry : s.entries model' with
    | none =>
      have hRelease : s.entries.release model' state = s.entries := by
        rw [PoolEntries.release, hEntry]
      rw [hRelease]
      refine ⟨hAccounted.kept, fun entry hSome => ?_⟩
      exact absurd (hEntry.symm.trans hSome) (Option.some_ne_none entry).symm
    | some entry =>
      refine hAccounted.exchange h (entry.freeStates ++ [state]) hEntry ?_ ?_
      · simp only [PoolEntries.release, hEntry, Function.update_self]
      · rw [hOne]
        exact (List.append_nil _).symm ▸ List.Perm.refl _
  · have hNone : (Caller.leasing model' state).lease model = [] := if_neg hModel
    refine hAccounted.elsewhere h hNone rfl ?_
    cases hEntry : s.entries model' with
    | none => simp only [PoolEntries.release, hEntry]
    | some entry =>
      simp only [PoolEntries.release, hEntry]
      exact Function.update_of_ne (Ne.symm hModel) _ _

/-- The chosen sleeper is not the caller that wakes it. -/
theorem other_callers {j : Nat} {model' : Bytes} {call : AcquireCall} {next : Caller State}
    (h : s.callers[i]? = some (.notifying model')) (hChosen : s.callers[j]? = some (.asleep call)) :
    (s.move i next).callers[j]? = some (.asleep call) := by
  have hNe : i ≠ j := by
    rintro rfl
    rw [h] at hChosen
    cases hChosen
  exact (List.getElem?_set_ne hNe).trans hChosen

theorem Accounted.step (hAccounted : Accounted loaded model s) (hMoved : Moved s s') :
    Accounted loaded model s' := by
  cases hMoved with
  | entered i call caller h hOut s' hTo =>
    refine hAccounted.attempted h ?_ hTo
    rcases hOut with rfl | ⟨call', error, rfl⟩
    · rfl
    · rfl
  | retried i call timedOut h s' hTo => exact hAccounted.attempted h rfl hTo
  | roused i call timedOut stopped h =>
    have hNext := hAccounted.move h rfl (.woken call timedOut) rfl
    exact ⟨hNext.kept, hNext.states⟩
  | released i model' state h => exact hAccounted.released h
  | unheard i model' h => exact hAccounted.move h rfl _ rfl
  | notified i j model' call h hChosen hModel =>
    exact (hAccounted.move h rfl _ rfl).move (other_callers h hChosen) rfl _ rfl
  | outside stopped now => exact ⟨hAccounted.kept, hAccounted.states⟩

theorem accounted_start {callers : Nat} (h : ∀ entry, loaded model = some entry →
    entry.freeStates = entry.allStates) : Accounted loaded model (start loaded callers) := by
  refine ⟨rfl, fun entry hEntry => ?_⟩
  have hNothing : Parties.held (Caller.lease model) (start loaded callers).callers = [] := by
    refine List.flatMap_eq_nil_iff.mpr fun caller hMem => ?_
    rw [List.eq_of_mem_replicate hMem]
    rfl
  rw [hNothing, List.append_nil, h entry hEntry]

theorem accounted_run (callers : Nat) (model : Bytes) (h : ∀ entry, loaded model = some entry →
    entry.freeStates = entry.allStates) (actions : List PoolAction) :
    Accounted loaded model ((start loaded callers).run actions) :=
  run_keeps (accounted_start h) (fun _ _ => Accounted.step) actions

/-- In every run of a pool that was created, the states of a model are the ones allocated for
it, as many as configured, and each of them is free or leased, to one caller only. -/
theorem states_leased_once {native : ModelNative State} {config : PoolConfig}
    (hFresh : ∀ name i j state, native.initState name i = some state →
      native.initState name j = some state → i = j)
    {entries : PoolEntries State} (hPool : native.createPool config = .ok entries)
    {model : Bytes} {entry : PoolEntry State} (hEntry : entries model = some entry)
    (callers : Nat) (actions : List PoolAction) :
    ∃ entry', ((start entries callers).run actions).entries model = some entry' ∧
      entry'.allStates.map some = (List.range config.concurrency).map (native.initState model) ∧
      (entry'.freeStates ++ Parties.held (Caller.lease model)
        ((start entries callers).run actions).callers).Perm entry'.allStates ∧
      ∀ (i : Nat) (state : State),
        ((start entries callers).run actions).callers[i]? = some (.leasing model state) →
        state ∈ entry'.allStates ∧ state ∉ entry'.freeStates ∧
        ∀ j : Nat, ((start entries callers).run actions).callers[j]? = some (.leasing model state) →
          i = j := by
  have hLoaded := ModelNative.loaded_of_createPool hPool model entry hEntry
  have hRun := accounted_run callers model (fun entry' hEntry' =>
    (ModelNative.loaded_of_createPool hPool model entry' hEntry').free) actions
  have hKept := hRun.kept
  rw [hEntry] at hKept
  obtain ⟨entry', hEntry', hAll⟩ := Option.map_eq_some_iff.mp hKept
  have hPerm := hRun.states entry' hEntry'
  have hNodup := (hPerm.nodup_iff).mpr (hAll ▸ hLoaded.nodup (hFresh model))
  refine ⟨entry', hEntry', hAll ▸ hLoaded.states, hPerm, fun i state hLeasing => ?_⟩
  have hHolds : state ∈ (Caller.leasing model state).lease model := by
    rw [Caller.lease, if_pos rfl]
    exact List.mem_singleton_self state
  have hHeld := Parties.mem_held hLeasing hHolds
  refine ⟨hPerm.subset (List.mem_append_right _ hHeld), ?_, fun j hOther => ?_⟩
  · exact fun hFree => List.disjoint_of_nodup_append hNodup hFree hHeld
  · exact Parties.held_nodup (List.nodup_append.mp hNodup).2.1 hLeasing hOther hHolds hHolds

/-- A directory with one model and a pool with one state of it. -/
def tinyNative : ModelNative Nat where
  listing := .ok [ascii "ggml-tiny.bin"]
  weights := fun name => if name = ascii "ggml-tiny.bin" then .sized 4 (some (ascii "lmgg")) else .missing
  sha256 := fun _ => [158, 24, 85, 72, 139, 76, 240, 43, 187, 100, 38, 209, 81, 179, 236, 97, 253,
    235, 21, 63, 164, 31, 203, 232, 147, 194, 49, 21, 36, 163, 27, 152]
  cudaRegistered := false
  availableBackends := ascii "CPU"
  initContext := fun _ => true
  initState := fun _ i => some i
  initEncoder := fun _ _ => false

def tinyConfig : PoolConfig := ⟨.cpu, ascii "CPU", ascii "/models", [], 1⟩

def tinyEntries : PoolEntries Nat :=
  Function.update (fun _ => none) (ascii "tiny") (some ⟨tinyNative.sha256 (ascii "lmgg"), [0], [0]⟩)

def tinyCall (deadline : Option Nat) : AcquireCall := ⟨ascii "tiny", true, deadline⟩

theorem tinyEntries_created : tinyNative.createPool tinyConfig = .ok tinyEntries := rfl

theorem states_leased_once_tiny :
    ∃ entry', ((start tinyEntries 2).run [.acquire 0 (tinyCall none)]).entries (ascii "tiny") =
        some entry' ∧
      entry'.allStates.map some = (List.range 1).map (tinyNative.initState (ascii "tiny")) ∧
      (entry'.freeStates ++ Parties.held (Caller.lease (ascii "tiny"))
        ((start tinyEntries 2).run [.acquire 0 (tinyCall none)]).callers).Perm entry'.allStates ∧
      ∀ (i : Nat) (state : Nat),
        ((start tinyEntries 2).run [.acquire 0 (tinyCall none)]).callers[i]? =
          some (.leasing (ascii "tiny") state) →
        state ∈ entry'.allStates ∧ state ∉ entry'.freeStates ∧
        ∀ j : Nat, ((start tinyEntries 2).run [.acquire 0 (tinyCall none)]).callers[j]? =
          some (.leasing (ascii "tiny") state) → i = j :=
  states_leased_once
    (fun _ _ _ _ hFirst hSecond => Option.some.inj (hFirst.trans hSecond.symm))
    tinyEntries_created (Function.update_self ..) 2 [.acquire 0 (tinyCall none)]

/-! ## Sleepers and free states -/

/-- The units, the sleepers and the alert callers of one model. -/
def counts (model : Bytes) (s : PoolSystem State) : Wakeups.Counts :=
  ⟨(s.entries.free model).length, s.callers.countP (Caller.asleepOn model),
    s.callers.countP (Caller.alertOn model)⟩

theorem free_of_some {entries : PoolEntries State} {entry : PoolEntry State}
    (h : entries model = some entry) : entries.free model = entry.freeStates := by
  rw [PoolEntries.free, h]
  rfl

theorem free_of_none {entries : PoolEntries State} (h : entries model = none) :
    entries.free model = [] := by
  rw [PoolEntries.free, h]
  rfl

/-- The counts after one caller has moved. -/
theorem counts_set (model : Bytes) (h : s.callers[i]? = some caller) (s' : PoolSystem State)
    {next : Caller State} (hState : s'.callers = s.callers.set i next) :
    (counts model s').asleep + (caller.asleepOn model).toNat =
        (counts model s).asleep + (next.asleepOn model).toNat ∧
      (counts model s').alert + (caller.alertOn model).toNat =
        (counts model s).alert + (next.alertOn model).toNat := by
  simp only [counts, hState]
  exact ⟨Parties.count_set _ h next, Parties.count_set _ h next⟩

theorem Attempted.next (model : Bytes) {call : AcquireCall} {timedOut : Bool}
    (hTo : Attempted s i call timedOut s') :
    ∃ next, s'.callers = s.callers.set i next ∧ next.alertOn model = false ∧
      (call.model ≠ model → next.asleepOn model = false) ∧
      ∀ entry state rest, s.entries call.model = some entry → entry.freeStates = state :: rest →
        next.asleepOn model = false := by
  cases hTo with
  | unknown => exact ⟨_, rfl, rfl, fun _ => rfl, fun _ _ _ _ _ => rfl⟩
  | leased => exact ⟨_, rfl, rfl, fun _ => rfl, fun _ _ _ _ _ => rfl⟩
  | cancelled => exact ⟨_, rfl, rfl, fun _ => rfl, fun _ _ _ _ _ => rfl⟩
  | expired => exact ⟨_, rfl, rfl, fun _ => rfl, fun _ _ _ _ _ => rfl⟩
  | waiting entry hEntry hFree =>
    refine ⟨_, rfl, rfl, fun hModel => beq_eq_false_iff_ne.mpr hModel, ?_⟩
    intro entry' state rest hEntry' hSome
    obtain rfl := Option.some.inj (hEntry.symm.trans hEntry')
    rw [hFree] at hSome
    cases hSome

/-- The free list of the call's model loses its first state, if it has one. -/
theorem Attempted.free (model : Bytes) {call : AcquireCall} {timedOut : Bool}
    (hTo : Attempted s i call timedOut s') :
    s'.entries.free model =
      if call.model = model then (s.entries.free model).tail else s.entries.free model := by
  have hStay (hFree : s.entries.free call.model = []) : s.entries.free model =
      if call.model = model then (s.entries.free model).tail else s.entries.free model := by
    split
    next hModel => rw [← hModel, hFree, List.tail_nil]
    · rfl
  cases hTo with
  | unknown hEntry => exact hStay (free_of_none hEntry)
  | cancelled entry hEntry hFree => exact hStay ((free_of_some hEntry).trans hFree)
  | expired entry hEntry hFree => exact hStay ((free_of_some hEntry).trans hFree)
  | waiting entry hEntry hFree => exact hStay ((free_of_some hEntry).trans hFree)
  | leased entry hEntry state rest hFree =>
    split
    next hModel =>
      subst hModel
      rw [free_of_some hEntry, hFree, List.tail_cons]
      exact free_of_some (Function.update_self ..)
    next hModel =>
      unfold PoolEntries.free
      exact congrArg (fun entry => Option.elim entry [] PoolEntry.freeStates)
        (Function.update_of_ne (Ne.symm hModel) _ _)

theorem release_free (entries : PoolEntries State) (model model' : Bytes) (state : State) :
    (model' ≠ model → ((entries.release model' state).free model).length =
      (entries.free model).length) ∧
    (entries model' = none → ((entries.release model' state).free model').length = 0) ∧
    (model' = model → ∀ entry, entries model' = some entry →
      ((entries.release model' state).free model).length = (entries.free model).length + 1) := by
  unfold PoolEntries.release PoolEntries.free
  refine ⟨fun hModel => ?_, fun hNone => ?_, fun hModel entry hEntry => ?_⟩
  · cases entries model' with
    | none => rfl
    | some entry => simp only [Function.update_of_ne (Ne.symm hModel)]
  · simp only [hNone, Option.elim_none, List.length_nil]
  · subst hModel
    simp only [hEntry, Function.update_self, Option.elim_some, List.length_append,
      List.length_singleton]

theorem Attempted.wakeup {call : AcquireCall} {timedOut : Bool} (h : s.callers[i]? = some caller)
    (hAwake : caller.asleepOn model = false)
    (hAlert : caller.alertOn model = true → call.model = model)
    (hTo : Attempted s i call timedOut s') :
    Wakeups.Step (counts model s) (counts model s') := by
  obtain ⟨next, hCallers, hNextAlert, hElsewhere, hTaken⟩ := hTo.next model
  obtain ⟨hSleepers, hAlerts⟩ := counts_set model h s' hCallers
  have hFree := congrArg List.length (hTo.free model)
  rw [hAwake] at hSleepers
  rw [hNextAlert] at hAlerts
  by_cases hModel : call.model = model
  · subst hModel
    rw [if_pos rfl, List.length_tail] at hFree
    cases hSome : s.entries.free call.model with
    | nil =>
      rw [hSome] at hFree
      exact .settle hFree
    | cons state rest =>
      have hNextAwake : next.asleepOn call.model = false := by
        cases hEntry : s.entries call.model with
        | none =>
          rw [free_of_none hEntry] at hSome
          cases hSome
        | some entry =>
          rw [free_of_some hEntry] at hSome
          exact hTaken entry state rest hEntry hSome
      rw [hNextAwake] at hSleepers
      refine .take ?_ hSleepers ?_
      · show (s.entries.free call.model).length = (s'.entries.free call.model).length + 1
        rw [hFree, hSome, List.length_cons, Nat.add_sub_cancel]
      · cases hCaller : caller.alertOn call.model with
        | false =>
          rw [hCaller] at hAlerts
          exact .inl hAlerts.symm
        | true =>
          rw [hCaller] at hAlerts
          exact .inr hAlerts.symm
  · have hCaller : caller.alertOn model = false :=
      Bool.eq_false_iff.mpr fun hTrue => hModel (hAlert hTrue)
    rw [hCaller] at hAlerts
    rw [hElsewhere hModel] at hSleepers
    rw [if_neg hModel] at hFree
    exact .idle hFree hSleepers hAlerts

theorem Moved.wakeup (hMoved : Moved s s') : Wakeups.Step (counts model s) (counts model s') := by
  cases hMoved with
  | entered i call caller h hOut s' hTo =>
    rcases hOut with rfl | ⟨call', error, rfl⟩
    · exact hTo.wakeup h rfl (fun hTrue => absurd hTrue Bool.false_ne_true)
    · exact hTo.wakeup h rfl (fun hTrue => absurd hTrue Bool.false_ne_true)
  | retried i call timedOut h s' hTo => exact hTo.wakeup h rfl (fun hTrue => eq_of_beq hTrue)
  | roused i call timedOut stopped h =>
    obtain ⟨hSleepers, hAlerts⟩ := counts_set model h
      { s.move i (.woken call timedOut) with stopped } rfl
    cases hModel : call.model == model with
    | true =>
      simp only [Caller.asleepOn, Caller.alertOn, hModel] at hSleepers hAlerts
      exact .rouse rfl hSleepers.symm hAlerts
    | false =>
      simp only [Caller.asleepOn, Caller.alertOn, hModel] at hSleepers hAlerts
      exact .idle rfl hSleepers hAlerts
  | released i model' state h =>
    obtain ⟨hSleepers, hAlerts⟩ := counts_set model h
      { s.move i (.notifying model') with entries := s.entries.release model' state } rfl
    have hRelease := release_free s.entries model model' state
    cases hModel : model' == model with
    | true =>
      simp only [Caller.asleepOn, Caller.alertOn, hModel] at hSleepers hAlerts
      obtain rfl := eq_of_beq hModel
      cases hEntry : s.entries model' with
      | none => exact .settle (hRelease.2.1 hEntry)
      | some entry => exact .put (hRelease.2.2 rfl entry hEntry) hSleepers hAlerts
    | false =>
      simp only [Caller.asleepOn, Caller.alertOn, hModel] at hSleepers hAlerts
      exact .idle (hRelease.1 (beq_eq_false_iff_ne.mp hModel)) hSleepers hAlerts
  | unheard i model' h hNone =>
    obtain ⟨hSleepers, hAlerts⟩ := counts_set model h (s.move i .idle) rfl
    cases hModel : model' == model with
    | true =>
      obtain rfl := eq_of_beq hModel
      exact .unheard (hSleepers.trans hNone)
    | false =>
      simp only [Caller.asleepOn, Caller.alertOn, hModel] at hSleepers hAlerts
      exact .idle rfl hSleepers hAlerts
  | notified i j model' call h hChosen hModel =>
    obtain ⟨hSleepers, hAlerts⟩ := counts_set model h (s.move i .idle) rfl
    obtain ⟨hSleepers', hAlerts'⟩ := counts_set model (other_callers h hChosen)
      ((s.move i .idle).move j (.woken call false)) rfl
    subst hModel
    cases hModel : call.model == model with
    | true =>
      simp only [Caller.asleepOn, Caller.alertOn, hModel] at hSleepers hAlerts hSleepers' hAlerts'
      exact .notify rfl (hSleepers.symm.trans hSleepers'.symm) (hAlerts'.trans hAlerts)
    | false =>
      simp only [Caller.asleepOn, Caller.alertOn, hModel] at hSleepers hAlerts hSleepers' hAlerts'
      exact .idle rfl (hSleepers'.trans hSleepers) (hAlerts'.trans hAlerts)
  | outside stopped now => exact .idle rfl rfl rfl

theorem covered_run (entries : PoolEntries State) (callers : Nat) (actions : List PoolAction)
    (model : Bytes) : (counts model ((start entries callers).run actions)).Covered := by
  refine run_keeps (P := fun s => (counts model s).Covered) ?_
    (fun s s' hCovered hMoved => hCovered.step hMoved.wakeup) actions
  have hNone : (counts model (start entries callers)).asleep = 0 := by
    refine List.countP_eq_zero.mpr fun caller hMem hAsleep => ?_
    rw [List.eq_of_mem_replicate hMem] at hAsleep
    cases hAsleep
  exact fun hAsleep => absurd hAsleep (hNone ▸ Nat.lt_irrefl 0)

/-- An alert caller can take its next step. -/
theorem alert_enabled {j : Nat} (h : s.callers[j]? = some caller)
    (hAlert : caller.alertOn model = true) :
    ∃ action, (action = .retry j ∨ ∃ chosen, action = .notifyOne j chosen) ∧
      (s.step action).isSome := by
  cases caller with
  | woken call timedOut =>
    refine ⟨.retry j, .inl rfl, ?_⟩
    simp only [step, h, Option.isSome_some]
  | notifying model' =>
    cases hAny : s.callers.any (Caller.asleepOn model') with
    | false =>
      refine ⟨.notifyOne j none, .inr ⟨none, rfl⟩, ?_⟩
      simp only [step, h, hAny, Bool.false_eq_true, if_false, Option.isSome_some]
    | true =>
      obtain ⟨sleeper, hMem, hAsleep⟩ := List.any_eq_true.mp hAny
      obtain ⟨k, hSleeper⟩ := List.mem_iff_getElem?.mp hMem
      refine ⟨.notifyOne j (some k), .inr ⟨some k, rfl⟩, ?_⟩
      cases sleeper with
      | asleep call =>
        simp only [step, h, hSleeper, if_pos (eq_of_beq hAsleep), Option.isSome_some]
      | idle => cases hAsleep
      | woken => cases hAsleep
      | leasing => cases hAsleep
      | notifying => cases hAsleep
      | refused => cases hAsleep
  | idle => cases hAlert
  | asleep => cases hAlert
  | leasing => cases hAlert
  | refused => cases hAlert

/-- While a caller sleeps for a model, there are as many callers that are about to look at its
free states, or still have to notify a waiter, as there are free states; so a caller next to a
free state is not forgotten. -/
theorem free_states_noticed (entries : PoolEntries State) (callers : Nat)
    (actions : List PoolAction) (i : Nat) (call : AcquireCall)
    (hAsleep : ((start entries callers).run actions).callers[i]? = some (.asleep call)) :
    (((start entries callers).run actions).entries.free call.model).length ≤
        ((start entries callers).run actions).callers.countP (Caller.alertOn call.model) ∧
      (((start entries callers).run actions).entries.free call.model ≠ [] →
        ∃ (j : Nat) (caller : Caller State),
          ((start entries callers).run actions).callers[j]? = some caller ∧
          caller.alertOn call.model = true ∧
          ∃ action, (action = .retry j ∨ ∃ chosen, action = .notifyOne j chosen) ∧
            (((start entries callers).run actions).step action).isSome) := by
  have hCovered := covered_run entries callers actions call.model
    (Parties.count_pos _ hAsleep (beq_self_eq_true call.model))
  refine ⟨hCovered, fun hFree => ?_⟩
  have hAlert := Nat.lt_of_lt_of_le (List.length_pos_iff.mpr hFree) hCovered
  obtain ⟨caller, hMem, hCaller⟩ := List.countP_pos_iff.mp hAlert
  obtain ⟨j, hAt⟩ := List.mem_iff_getElem?.mp hMem
  exact ⟨j, caller, hAt, hCaller, alert_enabled hAt hCaller⟩

/-- The state was given back and the sleeper has not been woken yet. -/
theorem free_states_noticed_tiny :
    1 ≤ ((start tinyEntries 2).run [.acquire 0 (tinyCall none), .acquire 1 (tinyCall none),
        .release 0]).callers.countP (Caller.alertOn (ascii "tiny")) :=
  (free_states_noticed tinyEntries 2
    [.acquire 0 (tinyCall none), .acquire 1 (tinyCall none), .release 0] 1 (tinyCall none) rfl).1

/-! ## Refusals -/

/-- A caller whose wait timed out has a deadline that is over. -/
def CallerDue (now : Nat) : Caller State → Prop
  | .woken call true => ∃ deadline, call.deadline = some deadline ∧ deadline ≤ now
  | _ => True

def Due (s : PoolSystem State) : Prop :=
  ∀ (i : Nat) (caller : Caller State), s.callers[i]? = some caller → CallerDue s.now caller

theorem Due.set (hDue : Due s) {next : Caller State} {entries : PoolEntries State}
    {stopped : Nat → Bool} (hNext : CallerDue s.now next) :
    Due { s.move i next with entries, stopped } := by
  intro j caller h
  have hSet : (s.callers.set i next)[j]? = some caller := h
  rw [List.getElem?_set] at hSet
  split at hSet
  · split at hSet
    · exact Option.some.inj hSet ▸ hNext
    · cases hSet
  · exact hDue j caller hSet

theorem Due.step (hDue : Due s) (hMoved : Moved s s') : Due s' := by
  have hAttempted {i : Nat} {call : AcquireCall} {timedOut : Bool}
      (hTo : Attempted s i call timedOut s') : Due s' := by
    cases hTo with
    | unknown => exact hDue.set trivial
    | leased => exact hDue.set trivial
    | cancelled => exact hDue.set trivial
    | expired => exact hDue.set trivial
    | waiting => exact hDue.set trivial
  cases hMoved with
  | entered i call caller h hOut s' hTo => exact hAttempted hTo
  | retried i call timedOut h s' hTo => exact hAttempted hTo
  | roused i call timedOut stopped h hOver =>
    refine hDue.set ?_
    cases timedOut with
    | false => trivial
    | true => exact hOver rfl
  | released i model state h => exact hDue.set trivial
  | unheard i model h hNone => exact hDue.set trivial
  | notified i j model call h hChosen hModel =>
    have hFirst : Due (s.move i .idle) := hDue.set trivial
    exact hFirst.set trivial
  | outside stopped now hNow =>
    intro i caller h
    have hBefore := hDue i caller h
    unfold CallerDue at hBefore ⊢
    split at hBefore
    · obtain ⟨deadline, hDeadline, hOver⟩ := hBefore
      exact ⟨deadline, hDeadline, Nat.le_trans hOver hNow⟩
    · trivial

theorem due_run (entries : PoolEntries State) (callers : Nat) (actions : List PoolAction) :
    Due ((start entries callers).run actions) := by
  refine run_keeps (fun i caller h => ?_) (fun _ _ => Due.step) actions
  rw [List.eq_of_mem_replicate (List.mem_of_getElem? h)]
  trivial

theorem Attempted.refusal {call call' : AcquireCall} {timedOut : Bool} {error : PoolError}
    (hTo : Attempted s i call timedOut s') (h : s.callers[i]? = some caller)
    (hRefused : s'.callers[i]? = some (.refused call' error)) :
    call = call' ∧
      ((∃ what, error = .invalidArgument what ∧ s.entries call.model = none) ∨
        ∃ entry, s.entries call.model = some entry ∧ entry.freeStates = [] ∧
          ((∃ what, error = .cancelled what ∧ s.stopSeen i call = true) ∨
            ∃ what, error = .queueTimeout what ∧ s.stopSeen i call = false ∧ timedOut = true)) := by
  have hNext {next : Caller State} (hSet : s'.callers = s.callers.set i next) :
      next = .refused call' error := by
    rw [hSet, List.getElem?_set_self (List.getElem?_eq_some_iff.mp h).1] at hRefused
    exact Option.some.inj hRefused
  cases hTo with
  | unknown hEntry what =>
    obtain ⟨rfl, rfl⟩ := Caller.refused.inj (hNext rfl)
    exact ⟨rfl, .inl ⟨what, rfl, hEntry⟩⟩
  | leased => cases hNext rfl
  | cancelled entry hEntry hFree hStop what =>
    obtain ⟨rfl, rfl⟩ := Caller.refused.inj (hNext rfl)
    exact ⟨rfl, .inr ⟨entry, hEntry, hFree, .inl ⟨what, rfl, hStop⟩⟩⟩
  | expired entry hEntry hFree hStop hOut what =>
    obtain ⟨rfl, rfl⟩ := Caller.refused.inj (hNext rfl)
    exact ⟨rfl, .inr ⟨entry, hEntry, hFree, .inr ⟨what, rfl, hStop, hOut⟩⟩⟩
  | waiting => cases hNext rfl

/-- Where no state of a model is free, the callers hold all of them. -/
theorem leased_length {native : ModelNative State} {config : PoolConfig}
    (hPool : native.createPool config = .ok loaded) (hAccounted : Accounted loaded model s)
    {entry : PoolEntry State} (hEntry : s.entries model = some entry)
    (hFree : entry.freeStates = []) :
    (Parties.held (Caller.lease model) s.callers).length = config.concurrency := by
  have hKept := hAccounted.kept
  rw [hEntry] at hKept
  obtain ⟨first, hFirst, hAll⟩ := Option.map_eq_some_iff.mp hKept.symm
  have hPerm := hAccounted.states entry hEntry
  rw [hFree, List.nil_append] at hPerm
  rw [hPerm.length_eq, ← hAll]
  exact (ModelNative.loaded_of_createPool hPool model first hFirst).length

/-- A step that tries to take a state is an attempt, after a wait that timed out only if the
deadline is over. -/
theorem attempted_of_step (hDue : Due s) {call : AcquireCall} {action : PoolAction}
    (hAction : action = .acquire i call ∨ action = .retry i) (hStep : s.step action = some s') :
    ∃ call timedOut caller, s.callers[i]? = some caller ∧ Attempted s i call timedOut s' ∧
      (timedOut = true → ∃ deadline, call.deadline = some deadline ∧ deadline ≤ s.now) := by
  rcases hAction with rfl | rfl
  · simp only [step] at hStep
    split at hStep
    next hCaller =>
      obtain rfl := Option.some.inj hStep
      exact ⟨call, false, _, hCaller, attempt_cases i call false,
        fun hTrue => absurd hTrue Bool.false_ne_true⟩
    next hCaller =>
      obtain rfl := Option.some.inj hStep
      exact ⟨call, false, _, hCaller, attempt_cases i call false,
        fun hTrue => absurd hTrue Bool.false_ne_true⟩
    · cases hStep
  · simp only [step] at hStep
    split at hStep
    next call' timedOut hCaller =>
      obtain rfl := Option.some.inj hStep
      refine ⟨call', timedOut, _, hCaller, attempt_cases i call' timedOut, ?_⟩
      rintro rfl
      exact hDue i _ hCaller
    · cases hStep

/-- An attempt that is refused names a model that is not loaded, or finds every state of its
model leased, and then its stream has stopped or its deadline is over. -/
theorem refused_for_reason {native : ModelNative State} {config : PoolConfig}
    {entries : PoolEntries State} (hPool : native.createPool config = .ok entries)
    (callers : Nat) (actions : List PoolAction) (i : Nat) (call call' : AcquireCall)
    (error : PoolError) (action : PoolAction) (s' : PoolSystem State)
    (hAction : action = .acquire i call ∨ action = .retry i)
    (hStep : ((start entries callers).run actions).step action = some s')
    (hRefused : s'.callers[i]? = some (.refused call' error)) :
    (∃ what, error = .invalidArgument what ∧ entries call'.model = none) ∨
      (Parties.held (Caller.lease call'.model)
          ((start entries callers).run actions).callers).length = config.concurrency ∧
        ((∃ what, error = .cancelled what ∧ call'.watchesStop = true ∧
            ((start entries callers).run actions).stopped i = true) ∨
          (∃ what deadline, error = .queueTimeout what ∧ call'.deadline = some deadline ∧
            deadline ≤ ((start entries callers).run actions).now ∧
            (call'.watchesStop = true →
              ((start entries callers).run actions).stopped i = false))) := by
  have hRun := accounted_run callers call'.model (fun entry hEntry =>
    (ModelNative.loaded_of_createPool hPool call'.model entry hEntry).free) actions
  obtain ⟨tried, timedOut, caller, hCaller, hTo, hOver⟩ :=
    attempted_of_step (due_run entries callers actions) hAction hStep
  obtain ⟨rfl, hReason⟩ := hTo.refusal hCaller hRefused
  rcases hReason with ⟨what, hError, hNone⟩ | ⟨entry, hEntry, hFree, hWhy⟩
  · have hKept := hRun.kept
    rw [hNone] at hKept
    exact .inl ⟨what, hError, Option.map_eq_none_iff.mp hKept.symm⟩
  · refine .inr ⟨leased_length hPool hRun hEntry hFree, ?_⟩
    rcases hWhy with ⟨what, hError, hStop⟩ | ⟨what, hError, hStop, rfl⟩
    · exact .inl ⟨what, hError, Bool.and_eq_true_iff.mp hStop⟩
    · obtain ⟨deadline, hDeadline, hDue⟩ := hOver rfl
      refine .inr ⟨what, deadline, hError, hDeadline, hDue, fun hWatches => ?_⟩
      rwa [stopSeen, hWatches, Bool.true_and] at hStop

theorem refused_for_reason_tiny :
    (Parties.held (Caller.lease (ascii "tiny")) ((start tinyEntries 2).run
      [.acquire 0 (tinyCall none), .acquire 1 (tinyCall (some 0)), .rouse 1 true]).callers).length =
        1 := by
  have hReason := refused_for_reason tinyEntries_created 2
    [.acquire 0 (tinyCall none), .acquire 1 (tinyCall (some 0)), .rouse 1 true] 1
    (tinyCall (some 0)) (tinyCall (some 0)) _ (.retry 1) _ (.inr rfl) rfl rfl
  rcases hReason with ⟨what, hError, hNone⟩ | ⟨hLength, hWhy⟩
  · cases hError
  · exact hLength

end PoolSystem

end GrpcAsr.Asr
