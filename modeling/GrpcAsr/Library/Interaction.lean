import Mathlib.Data.List.Basic

/-!
# Programs that act on a shared machine

A `Program` performs requests one at a time and goes on with the reply. A `Contract`
says what a request assumes and guarantees of the ghost state of the thread that makes
it; `Program.Meets` is the weakest precondition with respect to a contract. A `Routine` is
a program with local variables and exceptions, reasoned about with triples. A pool of
programs takes turns on the machine, where a request may have to wait: if every request
that is served honours the contract in every state with the invariant, every thread
keeps to its own precondition, whatever the order of the turns.
-/

namespace Interaction

inductive Program (ι : Type) (ρ : ι → Type) (α : Type)
  | done (a : α)
  | perform (request : ι) (next : ρ request → Program ι ρ α)

variable {ι α β γ δ σ ε : Type} {ρ : ι → Type}

namespace Program

def bind : Program ι ρ α → (α → Program ι ρ β) → Program ι ρ β
  | .done a, f => f a
  | .perform request next, f => .perform request fun reply => (next reply).bind f

def result? : Program ι ρ α → Option α
  | .done a => some a
  | .perform .. => none

/-- A program whose requests are carried out by programs over another machine. -/
def handle {κ : Type} {τ : κ → Type} (handler : (request : ι) → σ → Program κ τ (ρ request × σ)) :
    Program ι ρ α → σ → Program κ τ (α × σ)
  | .done a, s => .done (a, s)
  | .perform request next, s =>
    (handler request s).bind fun served => (next served.1).handle handler served.2

end Program

/-- What a thread with a ghost state may rely on when it makes a request. -/
structure Contract (ι : Type) (ρ : ι → Type) (γ : Type) where
  holds : (request : ι) → γ → (ρ request → γ → Prop) → Prop
  mono : ∀ {request g} {P Q : ρ request → γ → Prop}, (∀ reply g', P reply g' → Q reply g') →
    holds request g P → holds request g Q

/-- The contract under which any request may get any reply. -/
def Contract.any : Contract ι ρ Unit where
  holds _ _ Q := ∀ reply, Q reply ()
  mono hImp h reply := hImp reply () (h reply)

variable {C : Contract ι ρ γ}

namespace Program

def Meets (C : Contract ι ρ γ) : Program ι ρ α → γ → (α → γ → Prop) → Prop
  | .done a, g, Q => Q a g
  | .perform request next, g, Q => C.holds request g fun reply g' => (next reply).Meets C g' Q

namespace Meets

variable {p : Program ι ρ α} {g : γ} {Q R : α → γ → Prop}

theorem imp (h : p.Meets C g Q) (hImp : ∀ a g, Q a g → R a g) : p.Meets C g R := by
  induction p generalizing g with
  | done a => exact hImp a g h
  | perform request next ih => exact C.mono (fun reply g' hNext => ih reply hNext) h

theorem bind {f : α → Program ι ρ β} {S : β → γ → Prop}
    (h : p.Meets C g fun a g' => (f a).Meets C g' S) : (p.bind f).Meets C g S := by
  induction p generalizing g with
  | done a => exact h
  | perform request next ih => exact C.mono (fun reply g' hNext => ih reply hNext) h

/-- A program that keeps a contract keeps one that extends it to further ghost states. -/
theorem lift {C' : Contract ι ρ δ} (inject : γ → δ)
    (hExtends : ∀ request g (R : ρ request → γ → Prop), C.holds request g R →
      C'.holds request (inject g) fun reply g' => ∃ g₀, g' = inject g₀ ∧ R reply g₀)
    (h : p.Meets C g Q) : p.Meets C' (inject g) fun a g' => ∃ g₀, g' = inject g₀ ∧ Q a g₀ := by
  induction p generalizing g with
  | done a => exact ⟨g, rfl, h⟩
  | perform request next ih =>
    refine C'.mono ?_ (hExtends request g _ h)
    rintro reply _ ⟨g₀, rfl, hNext⟩
    exact ih reply hNext

end Meets

theorem Meets.trivial (p : Program ι ρ α) : p.Meets Contract.any () fun _ _ => True := by
  induction p with
  | done a => exact True.intro
  | perform request next ih => exact fun reply => ih reply

/-- What a program guarantees whatever the replies, it guarantees under any contract. -/
theorem Meets.and_any {p : Program ι ρ α} {g : γ} {Q : α → γ → Prop} {R : α → Unit → Prop}
    (h : p.Meets C g Q) (hAny : p.Meets Contract.any () R) :
    p.Meets C g fun a g' => Q a g' ∧ R a () := by
  induction p generalizing g with
  | done a => exact ⟨h, hAny⟩
  | perform request next ih => exact C.mono (fun reply g' hNext => ih reply hNext (hAny reply)) h

/-- Programs that go on alike after every result a program can have are equal. -/
theorem bind_congr {p : Program ι ρ α} {f f' : α → Program ι ρ β}
    (h : p.Meets Contract.any () fun a _ => f a = f' a) : p.bind f = p.bind f' := by
  induction p with
  | done a => exact h
  | perform request next ih => exact congrArg (perform request) (funext fun reply => ih reply (h reply))

end Program

section Play

variable {κ : Type}

/-- A program alone with surroundings that answer every request. -/
def Program.play (serve : κ → (request : ι) → ρ request × κ) : Program ι ρ α → κ → α × κ
  | .done a, k => (a, k)
  | .perform request next, k => (next (serve k request).1).play serve (serve k request).2

theorem Program.play_bind (serve : κ → (request : ι) → ρ request × κ) (p : Program ι ρ α)
    (f : α → Program ι ρ β) (k : κ) :
    (p.bind f).play serve k = (f (p.play serve k).1).play serve (p.play serve k).2 := by
  induction p generalizing k with
  | done a => rfl
  | perform request next ih => exact ih _ _

/-- The contract of surroundings that answer every request: their state is the ghost. -/
def Contract.serving (serve : κ → (request : ι) → ρ request × κ) : Contract ι ρ κ where
  holds request k Q := Q (serve k request).1 (serve k request).2
  mono hImp h := hImp _ _ h

theorem Program.Meets.play {serve : κ → (request : ι) → ρ request × κ} {p : Program ι ρ α} {k : κ}
    {Q : α → κ → Prop} (h : p.Meets (Contract.serving serve) k Q) :
    Q (p.play serve k).1 (p.play serve k).2 := by
  induction p generalizing k with
  | done a => exact h
  | perform request next ih => exact ih _ h

end Play

/-- A program with local variables `σ`, which outlive an exception `ε`. -/
def Routine (ι : Type) (ρ : ι → Type) (σ ε α : Type) := σ → Program ι ρ (Except ε α × σ)

namespace Routine

def andThen (result : Except ε α × σ) (f : α → Routine ι ρ σ ε β) : Program ι ρ (Except ε β × σ) :=
  match result with
  | (.ok a, s) => f a s
  | (.error e, s) => .done (.error e, s)

instance : Monad (Routine ι ρ σ ε) where
  pure a := fun s => .done (.ok a, s)
  bind m f := fun s => (m s).bind fun result => andThen result f

def throw (e : ε) : Routine ι ρ σ ε α := fun s => .done (.error e, s)

def get : Routine ι ρ σ ε σ := fun s => .done (.ok s, s)

def modify (f : σ → σ) : Routine ι ρ σ ε Unit := fun s => .done (.ok (), f s)

def perform (request : ι) : Routine ι ρ σ ε (ρ request) :=
  fun s => .perform request fun reply => .done (.ok reply, s)

/-- The outcome of a routine as a value: nothing is thrown past this point. -/
def attempt (m : Routine ι ρ σ ε α) : Routine ι ρ σ ε (Except ε α) := fun s =>
  (m s).bind fun result => .done (.ok result.1, result.2)

def liftExcept : Except ε α → Routine ι ρ σ ε α
  | .ok a => pure a
  | .error e => throw e

/-- Whatever the replies, the routine returns from the state with `R` or throws. -/
def Leads (m : Routine ι ρ σ ε α) (s : σ) (R : α → σ → Prop) : Prop :=
  (m s).Meets Contract.any () fun result _ => ∀ a, result.1 = .ok a → R a result.2

theorem Leads.of {m : Routine ι ρ σ ε α} {s : σ} {R : α → σ → Prop} (h : ∀ a s', R a s') :
    m.Leads s R := (Program.Meets.trivial (m s)).imp fun result _ _ a _ => h a result.2

/-- From `P`, the routine returns with `Q` or throws with `E`. -/
def Triple (C : Contract ι ρ γ) (P : σ → γ → Prop) (m : Routine ι ρ σ ε α)
    (Q : α → σ → γ → Prop) (E : ε → σ → γ → Prop) : Prop :=
  ∀ s g, P s g → (m s).Meets C g fun result g' =>
    match result with
    | (.ok a, s') => Q a s' g'
    | (.error e, s') => E e s' g'

namespace Triple

variable {P P' : σ → γ → Prop} {m : Routine ι ρ σ ε α} {Q Q' : α → σ → γ → Prop}
  {E E' : ε → σ → γ → Prop}

theorem weaken (h : Triple C P m Q E) (hPre : ∀ s g, P' s g → P s g)
    (hPost : ∀ a s g, Q a s g → Q' a s g) (hError : ∀ e s g, E e s g → E' e s g) :
    Triple C P' m Q' E' := by
  intro s g hs
  refine (h s g (hPre s g hs)).imp fun result g' hResult => ?_
  match result, hResult with
  | (.ok a, s'), hResult => exact hPost a s' g' hResult
  | (.error e, s'), hResult => exact hError e s' g' hResult

theorem pre (h : Triple C P m Q E) (hPre : ∀ s g, P' s g → P s g) : Triple C P' m Q E :=
  h.weaken hPre (fun _ _ _ hPost => hPost) fun _ _ _ hError => hError

theorem post (h : Triple C P m Q E) (hPost : ∀ a s g, Q a s g → Q' a s g) :
    Triple C P m Q' E := h.weaken (fun _ _ hPre => hPre) hPost fun _ _ _ hError => hError

theorem except (h : Triple C P m Q E) (hError : ∀ e s g, E e s g → E' e s g) :
    Triple C P m Q E' := h.weaken (fun _ _ hPre => hPre) (fun _ _ _ hPost => hPost) hError

theorem pure (a : α) (h : ∀ s g, P s g → Q a s g) :
    Triple C P (Pure.pure a : Routine ι ρ σ ε α) Q E := fun s g hs => h s g hs

theorem throw (e : ε) (h : ∀ s g, P s g → E e s g) : Triple C P (Routine.throw e : Routine ι ρ σ ε α) Q E :=
  fun s g hs => h s g hs

theorem get {Q : σ → σ → γ → Prop} (h : ∀ s g, P s g → Q s s g) :
    Triple C P (Routine.get : Routine ι ρ σ ε σ) Q E := fun s g hs => h s g hs

theorem modify {Q : Unit → σ → γ → Prop} (f : σ → σ) (h : ∀ s g, P s g → Q () (f s) g) :
    Triple C P (Routine.modify f : Routine ι ρ σ ε Unit) Q E := fun s g hs => h s g hs

theorem perform {request : ι} {Q : ρ request → σ → γ → Prop}
    (h : ∀ s g, P s g → C.holds request g fun reply g' => Q reply s g') :
    Triple C P (Routine.perform request : Routine ι ρ σ ε (ρ request)) Q E :=
  fun s g hs => h s g hs

theorem bind {f : α → Routine ι ρ σ ε β} {R : β → σ → γ → Prop} (h : Triple C P m Q E)
    (hf : ∀ a, Triple C (Q a) (f a) R E) : Triple C P (m >>= f) R E := by
  intro s g hs
  refine Program.Meets.bind ((h s g hs).imp fun result g' hResult => ?_)
  match result, hResult with
  | (.ok a, s'), hResult => exact hf a s' g' hResult
  | (.error e, s'), hResult => exact hResult

theorem attempt {R : Except ε α → σ → γ → Prop}
    (h : Triple C P m (fun a => R (.ok a)) fun e => R (.error e)) :
    Triple C P (Routine.attempt m) R E' := by
  intro s g hs
  refine Program.Meets.bind ((h s g hs).imp fun result g' hResult => ?_)
  match result, hResult with
  | (.ok a, s'), hResult => exact hResult
  | (.error e, s'), hResult => exact hResult

/-- What follows an attempt is proved for its two outcomes apart. -/
theorem attempt_bind {f : Except ε α → Routine ι ρ σ ε β} {R : β → σ → γ → Prop}
    (h : Triple C P m Q E) (hOk : ∀ a, Triple C (Q a) (f (.ok a)) R E')
    (hError : ∀ e, Triple C (E e) (f (.error e)) R E') :
    Triple C P (Routine.attempt m >>= f) R E' := by
  intro s g hs
  refine Program.Meets.bind (Program.Meets.bind ((h s g hs).imp fun result g' hResult => ?_))
  rcases result with ⟨e | a, s'⟩
  · exact hError e s' g' hResult
  · exact hOk a s' g' hResult

/-- A triple is joined with what the routine leads to under any contract. -/
theorem leads (h : Triple C P m Q E) {R : α → σ → Prop} :
    Triple C (fun s g => P s g ∧ m.Leads s R) m (fun a s g => Q a s g ∧ R a s) E := by
  rintro s g ⟨hs, hLeads⟩
  refine ((h s g hs).and_any hLeads).imp ?_
  rintro ⟨e | a, s'⟩ g' ⟨hResult, hReturned⟩
  · exact hResult
  · exact ⟨hResult, hReturned a rfl⟩

/-- What no step can change is kept. -/
theorem frame {F : Prop} (h : Triple C P m Q E) :
    Triple C (fun s g => F ∧ P s g) m (fun a s g => F ∧ Q a s g) fun e s g => F ∧ E e s g := by
  rintro s g ⟨hFrame, hs⟩
  refine (h s g hs).imp fun result g' hResult => ?_
  rcases result with ⟨e | a, s'⟩
  · exact ⟨hFrame, hResult⟩
  · exact ⟨hFrame, hResult⟩

end Triple

end Routine

/-- A machine that serves one request at a time, or lets it wait. The caller's number and
the surroundings of the moment are part of the input. -/
structure Machine (σ ι : Type) (ρ : ι → Type) (μ : Type) where
  serve : σ → Nat → μ → (request : ι) → Option (ρ request × σ)

structure Pool (σ ι : Type) (ρ : ι → Type) (α : Type) where
  state : σ
  threads : List (Program ι ρ α)

variable {μ ω : Type}

/-- One turn: a thread makes its next request, or the machine is moved from outside. -/
inductive Turn (μ ω : Type)
  | thread (index : Nat) (moment : μ)
  | outside (move : ω)

namespace Pool

def turn (M : Machine σ ι ρ μ) (move : σ → ω → σ) (pool : Pool σ ι ρ α) :
    Turn μ ω → Pool σ ι ρ α
  | .thread index moment =>
    match pool.threads[index]? with
    | some (.perform request next) =>
      match M.serve pool.state index moment request with
      | some served => ⟨served.2, pool.threads.set index (next served.1)⟩
      | none => pool
    | _ => pool
  | .outside w => { pool with state := move pool.state w }

def run (M : Machine σ ι ρ μ) (move : σ → ω → σ) (pool : Pool σ ι ρ α) (turns : List (Turn μ ω)) :
    Pool σ ι ρ α := turns.foldl (turn M move) pool

/-- Served requests honour the contract in every state with the invariant, and moves from
outside keep it. -/
structure Sound (M : Machine σ ι ρ μ) (move : σ → ω → σ) (C : Contract ι ρ γ)
    (I : σ → (Nat → γ) → Prop) : Prop where
  serve : ∀ {s s' ghosts index request reply} {Q : ρ request → γ → Prop} (moment : μ),
    I s ghosts → C.holds request (ghosts index) Q →
    M.serve s index moment request = some (reply, s') →
    ∃ g, Q reply g ∧ I s' (Function.update ghosts index g)
  move : ∀ {s ghosts} w, I s ghosts → I (move s w) ghosts

/-- Every thread of the pool meets its postcondition from its ghost state. -/
def Keeps (C : Contract ι ρ γ) (I : σ → (Nat → γ) → Prop) (post : Nat → α → γ → Prop)
    (pool : Pool σ ι ρ α) : Prop :=
  ∃ ghosts, I pool.state ghosts ∧
    ∀ (index : Nat) (thread : Program ι ρ α), pool.threads[index]? = some thread →
      thread.Meets C (ghosts index) (post index)

variable {M : Machine σ ι ρ μ} {move : σ → ω → σ} {I : σ → (Nat → γ) → Prop}
  {post : Nat → α → γ → Prop} {pool : Pool σ ι ρ α}

theorem Keeps.turn (hSound : Sound M move C I) (h : pool.Keeps C I post) (t : Turn μ ω) :
    (pool.turn M move t).Keeps C I post := by
  obtain ⟨ghosts, hI, hThreads⟩ := h
  cases t with
  | outside w => exact ⟨ghosts, hSound.move w hI, hThreads⟩
  | thread index moment =>
    rw [Pool.turn]
    split
    · rename_i request next hFound
      split
      · rename_i served hServed
        obtain ⟨g, hNext, hI'⟩ := hSound.serve moment hI (hThreads index _ hFound) hServed
        refine ⟨_, hI', fun other thread hThread => ?_⟩
        by_cases hSame : index = other
        · subst hSame
          rw [List.getElem?_set_self (List.getElem?_eq_some_iff.mp hFound).1] at hThread
          obtain rfl := Option.some.inj hThread
          rw [Function.update_self]
          exact hNext
        · rw [List.getElem?_set_ne hSame] at hThread
          rw [Function.update_of_ne (Ne.symm hSame)]
          exact hThreads other thread hThread
      · exact ⟨ghosts, hI, hThreads⟩
    · exact ⟨ghosts, hI, hThreads⟩

theorem Keeps.run (hSound : Sound M move C I) (h : pool.Keeps C I post) (turns : List (Turn μ ω)) :
    (pool.run M move turns).Keeps C I post := by
  induction turns generalizing pool with
  | nil => exact h
  | cons t turns ih => exact ih (h.turn hSound t)

theorem run_append (M : Machine σ ι ρ μ) (move : σ → ω → σ) (pool : Pool σ ι ρ α)
    (turns more : List (Turn μ ω)) :
    pool.run M move (turns ++ more) = (pool.run M move turns).run M move more :=
  List.foldl_append

theorem length_turn (M : Machine σ ι ρ μ) (move : σ → ω → σ) (pool : Pool σ ι ρ α)
    (t : Turn μ ω) : (pool.turn M move t).threads.length = pool.threads.length := by
  cases t with
  | outside w => rfl
  | thread index moment =>
    rw [turn]
    split
    · split
      · exact List.length_set
      · rfl
    · rfl

theorem length_run (M : Machine σ ι ρ μ) (move : σ → ω → σ) (pool : Pool σ ι ρ α)
    (turns : List (Turn μ ω)) : (pool.run M move turns).threads.length = pool.threads.length := by
  induction turns generalizing pool with
  | nil => rfl
  | cons t turns ih => exact (ih (pool.turn M move t)).trans (length_turn M move pool t)

def result? (pool : Pool σ ι ρ α) (index : Nat) : Option α :=
  pool.threads[index]?.bind Program.result?

theorem result?_eq_some {pool : Pool σ ι ρ α} {index : Nat} {a : α} :
    pool.result? index = some a ↔ pool.threads[index]? = some (.done a) := by
  rw [result?, Option.bind_eq_some_iff]
  constructor
  · rintro ⟨thread, hThread, hResult⟩
    cases thread with
    | done b => rw [hThread, Option.some.inj hResult]
    | perform request next => cases hResult
  · exact fun h => ⟨_, h, rfl⟩

/-- The first turns of one thread. -/
def turnsOf (index : Nat) (moments : Nat → μ) (n : Nat) : List (Turn μ ω) :=
  (List.range n).map fun k => .thread index (moments k)

/-- Where every request that honours the contract is served, and goes on being served, a thread
that gets enough turns is done. -/
theorem Keeps.finishes (hSound : Sound M move C I) {J : σ → Prop}
    (hServes : ∀ {s ghosts index request} {Q : ρ request → γ → Prop} (moment : μ),
      I s ghosts → J s → C.holds request (ghosts index) Q →
      ∃ served, M.serve s index moment request = some served ∧ J served.2)
    (h : pool.Keeps C I post) (hJ : J pool.state) {index : Nat} {thread : Program ι ρ α}
    (hThread : pool.threads[index]? = some thread) (moments : Nat → μ) :
    ∃ n a, (pool.run M move (turnsOf index moments n)).result? index = some a := by
  induction thread generalizing pool moments with
  | done a => exact ⟨0, a, result?_eq_some.mpr hThread⟩
  | perform request next ih =>
    have hKeeps := h.turn hSound (.thread index (moments 0))
    obtain ⟨ghosts, hI, hThreads⟩ := h
    obtain ⟨served, hServed, hServedJ⟩ := hServes (moments 0) hI hJ (hThreads index _ hThread)
    have hTurn : pool.turn M move (.thread index (moments 0)) =
        ⟨served.2, pool.threads.set index (next served.1)⟩ := by
      rw [Pool.turn, hThread]
      simp only [hServed]
    rw [hTurn] at hKeeps
    have hNext : (pool.threads.set index (next served.1))[index]? = some (next served.1) :=
      List.getElem?_set_self (List.getElem?_eq_some_iff.mp hThread).1
    obtain ⟨n, a, hDone⟩ := ih _ hKeeps hServedJ hNext fun k => moments (k + 1)
    refine ⟨n + 1, a, ?_⟩
    rw [turnsOf, List.range_succ_eq_map, List.map_cons, List.map_map, Pool.run,
      List.foldl_cons, hTurn]
    exact hDone

/-- Threads with no contract to keep. -/
theorem Keeps.any (M : Machine σ ι ρ μ) (move : σ → ω → σ) (pool : Pool σ ι ρ α) :
    Sound M move Contract.any (fun _ _ => True) ∧
      pool.Keeps Contract.any (fun _ _ => True) (fun _ _ _ => True) := by
  constructor
  · exact ⟨fun {s s' ghosts index request reply Q} _ _ hHolds _ => ⟨(), hHolds reply, trivial⟩,
      fun _ h => h⟩
  · exact ⟨fun _ => (), trivial, fun _ thread _ => Program.Meets.trivial thread⟩

/-- On a machine that lets no request wait any more, a thread that gets enough turns is done. -/
theorem finishes_served {J : σ → Prop}
    (hServes : ∀ {s} index moment request, J s →
      ∃ served, M.serve s index moment request = some served ∧ J served.2)
    (move : σ → ω → σ) (pool : Pool σ ι ρ α) (hJ : J pool.state) {index : Nat}
    {thread : Program ι ρ α} (h : pool.threads[index]? = some thread) (moments : Nat → μ) :
    ∃ n a, (pool.run M move (turnsOf index moments n)).result? index = some a := by
  obtain ⟨hSound, hKeeps⟩ := Keeps.any M move pool
  exact hKeeps.finishes hSound (fun moment _ hs _ => hServes _ moment _ hs) hJ h moments

/-- On a machine that never lets a request wait, a thread that gets enough turns is done,
whenever it gets them. -/
theorem finishes (hServes : ∀ s index moment request, (M.serve s index moment request).isSome = true)
    (move : σ → ω → σ) (pool : Pool σ ι ρ α) {index : Nat} {thread : Program ι ρ α}
    (h : pool.threads[index]? = some thread) (moments : Nat → μ) :
    ∃ n a, (pool.run M move (turnsOf index moments n)).result? index = some a := by
  refine finishes_served (J := fun _ => True) (fun {s} index moment request _ => ?_) move pool trivial
    h moments
  obtain ⟨served, hServed⟩ := Option.isSome_iff_exists.mp (hServes s index moment request)
  exact ⟨served, hServed, trivial⟩

end Pool

end Interaction
