import Mathlib.Data.List.Basic

/-!
# Machines that emit outputs and may stop with an error

A callback-driven component is a state machine whose operations hand values to a
callback in order and may end in an exception. An `Outcome` records the state left
behind, the values handed out and the exception. Sequencing stops at the first
error and keeps what was emitted before it.
-/

namespace Emitting

universe u v w x

structure Outcome (σ : Type u) (ω : Type v) (ε : Type w) where
  state : σ
  emitted : List ω
  error : Option ε

variable {σ : Type u} {ω : Type v} {ε : Type w} {ι : Type x}

def Outcome.next (o : Outcome σ ω ε) (f : σ → Outcome σ ω ε) : Outcome σ ω ε :=
  match o.error with
  | some _ => o
  | none => ⟨(f o.state).state, o.emitted ++ (f o.state).emitted, (f o.state).error⟩

theorem Outcome.next_of_error {o : Outcome σ ω ε} {f : σ → Outcome σ ω ε} {e : ε}
    (h : o.error = some e) : o.next f = o := by
  rw [Outcome.next, h]

theorem Outcome.next_of_none {o : Outcome σ ω ε} {f : σ → Outcome σ ω ε}
    (h : o.error = none) :
    o.next f = ⟨(f o.state).state, o.emitted ++ (f o.state).emitted, (f o.state).error⟩ := by
  rw [Outcome.next, h]

theorem Outcome.next_error_none {o : Outcome σ ω ε} {f : σ → Outcome σ ω ε}
    (h : (o.next f).error = none) : o.error = none ∧ (f o.state).error = none := by
  cases hError : o.error with
  | some e =>
    rw [Outcome.next_of_error hError, hError] at h
    cases h
  | none =>
    rw [Outcome.next_of_none hError] at h
    exact ⟨rfl, h⟩

def runAll (step : σ → ι → Outcome σ ω ε) : σ → List ι → Outcome σ ω ε
  | s, [] => ⟨s, [], none⟩
  | s, x :: xs => (step s x).next fun s' => runAll step s' xs

@[simp] theorem runAll_nil (step : σ → ι → Outcome σ ω ε) (s : σ) :
    runAll step s [] = ⟨s, [], none⟩ := rfl

theorem runAll_cons (step : σ → ι → Outcome σ ω ε) (s : σ) (x : ι) (xs : List ι) :
    runAll step s (x :: xs) = (step s x).next fun s' => runAll step s' xs := rfl

/-- A relation between the inputs taken, the state and the outputs that every successful
step keeps holds at the end of a run without an error. -/
theorem runAll_tracks {step : σ → ι → Outcome σ ω ε} {P : List ι → σ → List ω → Prop}
    (hStep : ∀ done s x out, P done s out → (step s x).error = none →
      P (done ++ [x]) (step s x).state (out ++ (step s x).emitted))
    (xs done : List ι) (s : σ) (out : List ω) (h : P done s out)
    (hOk : (runAll step s xs).error = none) :
    P (done ++ xs) (runAll step s xs).state (out ++ (runAll step s xs).emitted) := by
  induction xs generalizing done s out with
  | nil => simpa using h
  | cons x xs ih =>
    rw [runAll_cons] at hOk ⊢
    obtain ⟨hFirst, hRest⟩ := Outcome.next_error_none hOk
    rw [Outcome.next_of_none hFirst]
    simpa [List.append_assoc] using
      ih (done ++ [x]) (step s x).state _ (hStep done s x out h hFirst) hRest

theorem Outcome.next_assoc (o : Outcome σ ω ε) (f g : σ → Outcome σ ω ε) :
    (o.next f).next g = o.next fun s => (f s).next g := by
  cases hError : o.error with
  | some e =>
    rw [Outcome.next_of_error hError, Outcome.next_of_error hError, Outcome.next_of_error hError]
  | none =>
    rw [Outcome.next_of_none hError, Outcome.next_of_none hError]
    cases hSecond : (f o.state).error with
    | some e =>
      rw [Outcome.next_of_error (e := e) rfl, Outcome.next_of_error hSecond, hSecond]
    | none =>
      rw [Outcome.next_of_none rfl, Outcome.next_of_none hSecond]
      simp

theorem Outcome.nil_next (s : σ) (f : σ → Outcome σ ω ε) :
    (⟨s, [], none⟩ : Outcome σ ω ε).next f = f s := rfl

theorem Outcome.next_nil (o : Outcome σ ω ε) : (o.next fun s => ⟨s, [], none⟩) = o := by
  obtain ⟨s, emitted, error⟩ := o
  cases error with
  | some e => rfl
  | none => simp [Outcome.next]

@[simp] theorem runAll_singleton (step : σ → ι → Outcome σ ω ε) (s : σ) (x : ι) :
    runAll step s [x] = step s x := Outcome.next_nil _

theorem runAll_append (step : σ → ι → Outcome σ ω ε) (s : σ) (xs ys : List ι) :
    runAll step s (xs ++ ys) = (runAll step s xs).next fun s' => runAll step s' ys := by
  induction xs generalizing s with
  | nil => rfl
  | cons x xs ih =>
    rw [List.cons_append, runAll_cons, runAll_cons, Outcome.next_assoc]
    exact congrArg _ (funext fun s' => ih s')

/-- Whatever sequenced operations hand out, one of them does, after the others succeeded. -/
theorem Outcome.mem_next {o : Outcome σ ω ε} {f : σ → Outcome σ ω ε} {y : ω}
    (h : y ∈ (o.next f).emitted) : y ∈ o.emitted ∨ o.error = none ∧ y ∈ (f o.state).emitted := by
  cases hError : o.error with
  | some e =>
    rw [Outcome.next_of_error hError] at h
    exact .inl h
  | none =>
    rw [Outcome.next_of_none hError] at h
    exact (List.mem_append.mp h).imp_right fun hLater => ⟨rfl, hLater⟩

theorem runAll_mem {step : σ → ι → Outcome σ ω ε} {s : σ} {xs : List ι} {y : ω}
    (h : y ∈ (runAll step s xs).emitted) :
    ∃ before x after, xs = before ++ x :: after ∧ (runAll step s before).error = none ∧
      y ∈ (step (runAll step s before).state x).emitted := by
  induction xs generalizing s with
  | nil => cases h
  | cons x xs ih =>
    rw [runAll_cons] at h
    rcases Outcome.mem_next h with hFirst | ⟨hOk, hLater⟩
    · exact ⟨[], x, xs, rfl, rfl, hFirst⟩
    · obtain ⟨before, next, after, hSplit, hBefore, hMem⟩ := ih hLater
      refine ⟨x :: before, next, after, by rw [hSplit, List.cons_append], ?_, ?_⟩
      · rw [runAll_cons, Outcome.next_of_none hOk]
        exact hBefore
      · rw [runAll_cons, Outcome.next_of_none hOk]
        exact hMem

/-- The same outputs and the same error, and without an error the same state. -/
structure Outcome.Agrees (o o' : Outcome σ ω ε) : Prop where
  emitted : o.emitted = o'.emitted
  error : o.error = o'.error
  state : o.error = none → o.state = o'.state

namespace Outcome.Agrees

variable {o o' o'' : Outcome σ ω ε} {f g : σ → Outcome σ ω ε}

theorem refl (o : Outcome σ ω ε) : o.Agrees o := ⟨rfl, rfl, fun _ => rfl⟩

theorem trans (h : o.Agrees o') (h' : o'.Agrees o'') : o.Agrees o'' :=
  ⟨h.emitted.trans h'.emitted, h.error.trans h'.error, fun hOk =>
    (h.state hOk).trans (h'.state (h.error ▸ hOk))⟩

theorem symm (h : o.Agrees o') : o'.Agrees o :=
  ⟨h.emitted.symm, h.error.symm, fun hOk => (h.state (h.error.trans hOk)).symm⟩

theorem next (h : o.Agrees o') (hNext : o'.error = none → (f o'.state).Agrees (g o'.state)) :
    (o.next f).Agrees (o'.next g) := by
  cases hError : o'.error with
  | some e =>
    rw [Outcome.next_of_error (h.error.trans hError), Outcome.next_of_error hError]
    exact h
  | none =>
    have hOk := h.error.trans hError
    obtain ⟨hEmitted, hLast, hState⟩ := hNext hError
    rw [Outcome.next_of_none hOk, Outcome.next_of_none hError, h.state hOk]
    exact ⟨by rw [h.emitted, hEmitted], hLast, hState⟩

end Outcome.Agrees

/-- A call that does its parts one by one can be replaced by them, in any run that keeps the
machine usable. -/
theorem runAll_flatMap {κ : Type x} {call : σ → κ → Outcome σ ω ε} {step : σ → ι → Outcome σ ω ε}
    {parts : κ → List ι} {P : σ → Prop}
    (hCall : ∀ s k, P s → (call s k).Agrees (runAll step s (parts k)))
    (hStep : ∀ s x, P s → (step s x).error = none → P (step s x).state)
    (calls : List κ) {s : σ} (h : P s) :
    (runAll call s calls).Agrees (runAll step s (calls.flatMap parts)) := by
  have hKeeps : ∀ (xs : List ι) (s : σ), P s → (runAll step s xs).error = none →
      P (runAll step s xs).state := fun xs s hs hOk =>
    runAll_tracks (P := fun _ s _ => P s) (fun _ s x _ hs hOk => hStep s x hs hOk) xs [] s [] hs hOk
  induction calls generalizing s with
  | nil => exact .refl _
  | cons k calls ih =>
    rw [runAll_cons, List.flatMap_cons, runAll_append]
    exact (hCall s k h).next fun hOk => ih (hKeeps _ s h hOk)

/-- After the outputs `out`, an outcome without an error ends in a state with `Q`, and the
outputs of one with an error satisfy `E`. -/
structure Ensures (out : List ω) (o : Outcome σ ω ε) (Q : σ → List ω → Prop) (E : List ω → Prop) :
    Prop where
  done : o.error = none → Q o.state (out ++ o.emitted)
  failed : o.error ≠ none → E (out ++ o.emitted)

namespace Ensures

variable {out : List ω} {o : Outcome σ ω ε} {Q R : σ → List ω → Prop} {E : List ω → Prop}

theorem return_ {s : σ} (h : Q s out) : Ensures out (⟨s, [], none⟩ : Outcome σ ω ε) Q E :=
  ⟨fun _ => by simpa using h, fun h => absurd rfl h⟩

theorem throw {s : σ} {e : ε} (h : E out) : Ensures out (⟨s, [], some e⟩ : Outcome σ ω ε) Q E :=
  ⟨fun hNone => absurd hNone (Option.some_ne_none e), fun _ => by simpa using h⟩

theorem imp (h : Ensures out o Q E) (hQ : ∀ s out, Q s out → R s out) : Ensures out o R E :=
  ⟨fun hNone => hQ _ _ (h.done hNone), h.failed⟩

theorem imp_failed {F : List ω → Prop} (h : Ensures out o Q E) (hE : ∀ out, E out → F out) :
    Ensures out o Q F :=
  ⟨h.done, fun hFail => hE _ (h.failed hFail)⟩

/-- What holds of the outputs on both ways out. -/
theorem always (h : Ensures out o Q E) (hQ : ∀ s out, Q s out → E out) : E (out ++ o.emitted) := by
  cases hError : o.error with
  | none => exact hQ _ _ (h.done hError)
  | some e => exact h.failed (by simp [hError])

theorem next {f : σ → Outcome σ ω ε} (h : Ensures out o Q E)
    (hf : ∀ s out, Q s out → Ensures out (f s) R E) : Ensures out (o.next f) R E := by
  cases hError : o.error with
  | some e =>
    rw [Outcome.next_of_error hError]
    exact ⟨fun hNone => absurd (hError.symm.trans hNone) (Option.some_ne_none e), h.failed⟩
  | none =>
    have hNext := hf _ _ (h.done hError)
    rw [Outcome.next_of_none hError]
    exact ⟨fun hNone => by simpa using hNext.done hNone, fun hFail => by simpa using hNext.failed hFail⟩

/-- The loop rule, for a condition on the inputs taken so far. -/
theorem runAll {step : σ → ι → Outcome σ ω ε} {P : List ι → σ → List ω → Prop} {xs : List ι}
    (hStep : ∀ before x after s out, xs = before ++ x :: after → P before s out →
      Ensures out (step s x) (P (before ++ [x])) E)
    {s : σ} (h : P [] s out) : Ensures out (runAll step s xs) (P xs) E := by
  have hRest : ∀ rest before s out, xs = before ++ rest → P before s out →
      Ensures out (Emitting.runAll step s rest) (P xs) E := by
    intro rest
    induction rest with
    | nil =>
      intro before s out hSplit hBefore
      rw [List.append_nil] at hSplit
      exact return_ (hSplit ▸ hBefore)
    | cons x rest ih =>
      intro before s out hSplit hBefore
      rw [runAll_cons]
      exact (hStep before x rest s out hSplit hBefore).next fun s' out' h' =>
        ih (before ++ [x]) s' out' (by simpa using hSplit) h'
  exact hRest xs [] s out rfl h

end Ensures

/-- What every operation keeps, failed or not, holds after them. -/
theorem Outcome.next_keeps {P : σ → List ω → Prop} {o : Outcome σ ω ε} {f : σ → Outcome σ ω ε}
    {out : List ω} (h : P o.state (out ++ o.emitted))
    (hf : ∀ s out, P s out → P (f s).state (out ++ (f s).emitted)) :
    P (o.next f).state (out ++ (o.next f).emitted) := by
  cases hError : o.error with
  | some e => rwa [Outcome.next_of_error hError]
  | none =>
    rw [Outcome.next_of_none hError, ← List.append_assoc]
    exact hf _ _ h

theorem runAll_keeps {P : σ → List ω → Prop} {step : σ → ι → Outcome σ ω ε}
    (hStep : ∀ s x out, P s out → P (step s x).state (out ++ (step s x).emitted)) (xs : List ι)
    {s : σ} {out : List ω} (h : P s out) :
    P (runAll step s xs).state (out ++ (runAll step s xs).emitted) := by
  induction xs generalizing s out with
  | nil => rwa [runAll_nil, List.append_nil]
  | cons x xs ih => exact Outcome.next_keeps (hStep s x out h) fun s out h => ih h

theorem runAll_map {κ : Type x} (step : σ → ι → Outcome σ ω ε) (f : κ → ι) (s : σ) (xs : List κ) :
    runAll step s (xs.map f) = runAll (fun s x => step s (f x)) s xs := by
  induction xs generalizing s with
  | nil => rfl
  | cons x xs ih =>
    rw [List.map_cons, runAll_cons, runAll_cons]
    exact congrArg _ (funext fun s' => ih s')

/-- More inputs never take back an output. -/
theorem emitted_prefix (step : σ → ι → Outcome σ ω ε) {xs ys : List ι} (h : xs <+: ys) (s : σ) :
    (runAll step s xs).emitted <+: (runAll step s ys).emitted := by
  obtain ⟨rest, rfl⟩ := h
  rw [runAll_append]
  cases hError : (runAll step s xs).error with
  | some e => simp only [Outcome.next_of_error hError, List.prefix_refl]
  | none => simp only [Outcome.next_of_none hError, List.prefix_append]

/-- An operation leaves a part of the state as it is, and emits nothing of one kind. -/
structure Leaves {α : Type _} {β : Type _} (view : σ → α) (pick : ω → Option β) (s : σ)
    (o : Outcome σ ω ε) : Prop where
  state : view o.state = view s
  emitted : o.emitted.filterMap pick = []

namespace Leaves

variable {α : Type _} {β : Type _} {view : σ → α} {pick : ω → Option β} {s : σ}

theorem quiet (s : σ) (e : Option ε) :
    Leaves view pick s (⟨s, [], e⟩ : Outcome σ ω ε) := ⟨rfl, rfl⟩

theorem next {o : Outcome σ ω ε} {f : σ → Outcome σ ω ε} (h : Leaves view pick s o)
    (hf : ∀ s, Leaves view pick s (f s)) : Leaves view pick s (o.next f) := by
  cases hError : o.error with
  | some e =>
    rw [Outcome.next_of_error hError]
    exact h
  | none =>
    rw [Outcome.next_of_none hError]
    refine ⟨(hf o.state).state.trans h.state, ?_⟩
    rw [List.filterMap_append, h.emitted, (hf o.state).emitted]
    rfl

theorem runAll {step : σ → ι → Outcome σ ω ε} (h : ∀ s x, Leaves view pick s (step s x)) (s : σ)
    (xs : List ι) : Leaves view pick s (Emitting.runAll step s xs) := by
  induction xs generalizing s with
  | nil => exact quiet s none
  | cons x xs ih => exact (h s x).next fun s => ih s

end Leaves

/-- A caller that goes on after an error: the final state and the outcome of every call. -/
def runThrough (step : σ → ι → Outcome σ ω ε) : σ → List ι → σ × List (Outcome σ ω ε)
  | s, [] => (s, [])
  | s, x :: xs =>
    ((runThrough step (step s x).state xs).1, step s x :: (runThrough step (step s x).state xs).2)

def handed (outcomes : List (Outcome σ ω ε)) : List ω := outcomes.flatMap Outcome.emitted

@[simp] theorem handed_nil : handed ([] : List (Outcome σ ω ε)) = [] := rfl

@[simp] theorem handed_cons (o : Outcome σ ω ε) (os : List (Outcome σ ω ε)) :
    handed (o :: os) = o.emitted ++ handed os := rfl

@[simp] theorem handed_append (a b : List (Outcome σ ω ε)) :
    handed (a ++ b) = handed a ++ handed b := List.flatMap_append

/-- What every call keeps, failed or not, holds at the end. -/
theorem runThrough_keeps (step : σ → ι → Outcome σ ω ε) {P : σ → List ω → Prop}
    (hStep : ∀ s x out, P s out → P (step s x).state (out ++ (step s x).emitted))
    (xs : List ι) (s : σ) (out : List ω) (h : P s out) :
    P (runThrough step s xs).1 (out ++ handed (runThrough step s xs).2) := by
  induction xs generalizing s out with
  | nil => simpa [runThrough] using h
  | cons x xs ih => simpa [runThrough] using ih _ _ (hStep s x out h)

theorem runThrough_append (step : σ → ι → Outcome σ ω ε) (s : σ) (xs ys : List ι) :
    runThrough step s (xs ++ ys) =
      ((runThrough step (runThrough step s xs).1 ys).1,
        (runThrough step s xs).2 ++ (runThrough step (runThrough step s xs).1 ys).2) := by
  induction xs generalizing s with
  | nil => rfl
  | cons x xs ih => simp [runThrough, ih]

/-- The state after the calls, and everything they handed out. -/
def after (step : σ → ι → Outcome σ ω ε) (s : σ) (xs : List ι) : σ := (runThrough step s xs).1

def output (step : σ → ι → Outcome σ ω ε) (s : σ) (xs : List ι) : List ω :=
  handed (runThrough step s xs).2

@[simp] theorem after_nil (step : σ → ι → Outcome σ ω ε) (s : σ) : after step s [] = s := rfl

@[simp] theorem output_nil (step : σ → ι → Outcome σ ω ε) (s : σ) : output step s [] = [] := rfl

theorem after_append (step : σ → ι → Outcome σ ω ε) (s : σ) (xs ys : List ι) :
    after step s (xs ++ ys) = after step (after step s xs) ys := by
  rw [after, runThrough_append]
  rfl

theorem output_append (step : σ → ι → Outcome σ ω ε) (s : σ) (xs ys : List ι) :
    output step s (xs ++ ys) = output step s xs ++ output step (after step s xs) ys := by
  rw [output, runThrough_append, handed_append]
  rfl

@[simp] theorem after_snoc (step : σ → ι → Outcome σ ω ε) (s : σ) (xs : List ι) (x : ι) :
    after step s (xs ++ [x]) = (step (after step s xs) x).state := after_append step s xs [x]

@[simp] theorem output_snoc (step : σ → ι → Outcome σ ω ε) (s : σ) (xs : List ι) (x : ι) :
    output step s (xs ++ [x]) = output step s xs ++ (step (after step s xs) x).emitted := by
  rw [output_append]
  exact congrArg _ (List.append_nil _)

section Dead

variable {step : σ → ι → Outcome σ ω ε} {dead : σ → Prop}
  (hDead : ∀ s x, dead s → dead (step s x).state ∧ (step s x).error.isSome = true ∧
    (step s x).emitted = [])

include hDead

/-- A dead state fails every call silently. -/
theorem runThrough_dead (xs : List ι) (s : σ) (h : dead s) :
    ∀ o ∈ (runThrough step s xs).2, o.error.isSome = true ∧ o.emitted = [] := by
  induction xs generalizing s with
  | nil =>
    intro o ho
    cases ho
  | cons x xs ih =>
    intro o ho
    obtain ⟨hNext, hSilent⟩ := hDead s x h
    rcases List.mem_cons.mp ho with rfl | ho
    · exact hSilent
    · exact ih _ hNext o ho

/-- If failing kills, nothing is handed out after the first error. -/
theorem runThrough_silent (hFail : ∀ s x, (step s x).error.isSome = true → dead (step s x).state)
    (xs : List ι) (s : σ) :
    (runThrough step s xs).2.Pairwise fun a b =>
      a.error.isSome = true → b.error.isSome = true ∧ b.emitted = [] := by
  induction xs generalizing s with
  | nil => exact List.Pairwise.nil
  | cons x xs ih =>
    refine List.Pairwise.cons ?_ (ih _)
    intro o ho hError
    exact runThrough_dead hDead xs _ (hFail s x hError) o ho

end Dead

end Emitting
