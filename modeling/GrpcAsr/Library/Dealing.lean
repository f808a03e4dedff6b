import Mathlib.Algebra.Order.Ring.Int
import GrpcAsr.Library.Emitting
import Mathlib.Algebra.BigOperators.Group.List.Basic

/-!
# Following items through a program that hands out parcels

A program holds a line of items. Each call changes the line, and some of the values it
hands out take a number of items from its front. The trail of a run says which items went
into which value, so what was once known of an item can be asked of the value it ends in.
-/

namespace Dealing

open Emitting

universe u v w x y

section Parcels

variable {α : Type u} {ω : Type v} (size : ω → Nat)

def deal : List ω → List α → List (ω × List α)
  | [], _ => []
  | value :: values, line => (value, line.take (size value)) :: deal values (line.drop (size value))

def undealt (values : List ω) (line : List α) : List α := line.drop (values.map size).sum

@[simp] theorem deal_nil (line : List α) : deal size [] line = [] := rfl

@[simp] theorem undealt_nil (line : List α) : undealt size [] line = line := rfl

@[simp] theorem deal_singleton (value : ω) (line : List α) :
    deal size [value] line = [(value, line.take (size value))] := rfl

@[simp] theorem undealt_singleton (value : ω) (line : List α) :
    undealt size [value] line = line.drop (size value) := by
  rw [undealt, List.map_singleton, List.sum_singleton]

theorem undealt_append (first second : List ω) (line : List α) :
    undealt size (first ++ second) line = undealt size second (undealt size first line) := by
  rw [undealt, undealt, undealt, List.drop_drop, List.map_append, List.sum_append]

theorem deal_append (first second : List ω) (line : List α) :
    deal size (first ++ second) line = deal size first line ++ deal size second (undealt size first line) := by
  induction first generalizing line with
  | nil => rfl
  | cons value first ih =>
    rw [List.cons_append, deal, deal, ih, undealt, undealt, List.drop_drop, List.map_cons, List.sum_cons]
    rfl

theorem deal_fst (values : List ω) (line : List α) : (deal size values line).map Prod.fst = values := by
  induction values generalizing line with
  | nil => rfl
  | cons value values ih => rw [deal, List.map_cons, ih]

/-- All that is dealt, and what is left, is the line. -/
theorem deal_undealt (values : List ω) (line : List α) :
    (deal size values line).flatMap Prod.snd ++ undealt size values line = line := by
  induction values generalizing line with
  | nil => rfl
  | cons value values ih =>
    have hRest := ih (line.drop (size value))
    rw [undealt, List.drop_drop] at hRest
    rw [deal, List.flatMap_cons, undealt, List.map_cons, List.sum_cons, List.append_assoc, hRest,
      List.take_append_drop]

end Parcels

section Trails

variable {σ : Type u} {ι : Type v} {ω : Type w} {ε : Type x} {α : Type y}
  (step : σ → ι → Outcome σ ω ε) (line : σ → List α → ι → List α) (takes : ω → Bool) (size : ω → Nat)

/-- The values of one call that take items, each with the items it takes. -/
def parcels (s : σ) (held : List α) (call : ι) : List (ω × List α) :=
  deal size ((step s call).emitted.filter takes) (line s held call)

def remaining (s : σ) (held : List α) (call : ι) : List α :=
  undealt size ((step s call).emitted.filter takes) (line s held call)

def trail : σ → List α → List ι → List (ω × List α)
  | _, _, [] => []
  | s, held, call :: calls =>
    parcels step line takes size s held call ++
      trail (step s call).state (remaining step line takes size s held call) calls

/-- The calls of a run, each with the state it finds. -/
def visited : σ → List ι → List (σ × ι)
  | _, [] => []
  | s, call :: calls => (s, call) :: visited (step s call).state calls

variable {step line takes size}

theorem visited_keeps {P : σ → Prop} (hStep : ∀ s call, P s → P (step s call).state)
    (calls : List ι) {s : σ} (h : P s) : ∀ p ∈ visited step s calls, P p.1 := by
  induction calls generalizing s with
  | nil =>
    intro p hp
    cases hp
  | cons call calls ih =>
    intro p hp
    rcases List.mem_cons.mp hp with rfl | hRest
    · exact h
    · exact ih (hStep s call h) p hRest

theorem trail_fst (calls : List ι) (s : σ) (held : List α) :
    (trail step line takes size s held calls).map Prod.fst =
      (handed (runThrough step s calls).2).filter takes := by
  induction calls generalizing s held with
  | nil => rfl
  | cons call calls ih =>
    rw [trail, List.map_append, ih, parcels, deal_fst, runThrough, handed_cons, List.filter_append]

/-- A relation between the state, the items held and the trail so far that every call keeps. -/
theorem trail_keeps {P : σ → List α → List (ω × List α) → Prop} {calls : List ι}
    (hStep : ∀ call ∈ calls, ∀ s held done, P s held done →
      P (step s call).state (remaining step line takes size s held call)
        (done ++ parcels step line takes size s held call))
    {s : σ} {held : List α} {done : List (ω × List α)} (h : P s held done) :
    ∃ s' held', P s' held' (done ++ trail step line takes size s held calls) := by
  induction calls generalizing s held done with
  | nil =>
    rw [trail, List.append_nil]
    exact ⟨s, held, h⟩
  | cons call calls ih =>
    obtain ⟨hFirst, hRest⟩ := List.forall_mem_cons.mp hStep
    rw [trail, ← List.append_assoc]
    exact ih hRest (hFirst s held done h)

/-- What is so of all items that enter the line is so of all items in the trail. -/
theorem trail_items {Q : α → Prop} {calls : List ι}
    (hLine : ∀ call ∈ calls, ∀ s held, (∀ item ∈ held, Q item) → ∀ item ∈ line s held call, Q item)
    {s : σ} {held : List α} (h : ∀ item ∈ held, Q item) :
    ∀ p ∈ trail step line takes size s held calls, ∀ item ∈ p.2, Q item := by
  have hKept := @trail_keeps σ ι ω ε α step line takes size
    (fun _ held done => (∀ item ∈ held, Q item) ∧ ∀ p ∈ done, ∀ item ∈ p.2, Q item) calls ?_ s held []
    ⟨h, fun _ hNone => nomatch hNone⟩
  · obtain ⟨-, -, -, hTrail⟩ := hKept
    exact hTrail
  · rintro call hCall s held done ⟨hHeld, hDone⟩
    have hAll := hLine call hCall s held hHeld
    rw [← deal_undealt size ((step s call).emitted.filter takes) (line s held call),
      List.forall_mem_append] at hAll
    refine ⟨hAll.2, List.forall_mem_append.mpr ⟨hDone, fun p hp item hItem => ?_⟩⟩
    exact hAll.1 item (List.mem_flatMap.mpr ⟨p, hp, hItem⟩)

/-- When an invariant that remembers the call before says exactly which calls make good
parcels, a whole trail is good if and only if each call is such after the one before it. -/
theorem trail_iff {μ : Type*} {I : σ → List α → μ → Prop} {P : ω × List α → Prop}
    {C : μ → σ → ι → Prop} {note : σ → ι → μ}
    (hKeeps : ∀ s held m call, I s held m →
      I (step s call).state (remaining step line takes size s held call) (note s call))
    (hExact : ∀ s held m call, I s held m →
      ((∀ p ∈ parcels step line takes size s held call, P p) ↔ C m s call))
    (calls : List ι) (s : σ) (held : List α) (m : μ) (h : I s held m) :
    (∀ p ∈ trail step line takes size s held calls, P p) ↔
      (∀ call rest, calls = call :: rest → C m s call) ∧
        (visited step s calls).IsChain fun a b => C (note a.1 a.2) b.1 b.2 := by
  induction calls generalizing s held m with
  | nil => simp [trail, visited]
  | cons call calls ih =>
    rw [trail, visited, List.forall_mem_append, hExact s held m call h, ih _ _ _ (hKeeps s held m call h)]
    have hHead : (∀ next rest, call :: calls = next :: rest → C m s next) ↔ C m s call := by simp
    rw [hHead]
    cases calls with
    | nil => simp [visited]
    | cons next calls => simp [visited]

end Trails

end Dealing
