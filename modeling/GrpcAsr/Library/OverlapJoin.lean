import Mathlib.Data.List.Forall2
import Mathlib.Data.List.Nodup

/-!
# Joining overlapping token lists

Token lists arrive one after another. Each either follows what is pending or is spliced
into it: a prefix of the pending tokens is kept and a suffix of the input continues it.
A prefix of the result may then be settled for good. Whenever a splice keeps the letters
of both sides, no letter of any input is ever lost, and every kept token is an input
token used once.
-/

namespace OverlapJoin

universe u v

variable {α : Type u} {κ : Type v}

structure Ledger (α : Type u) where
  settled : List α
  pending : List α

def Ledger.kept (l : Ledger α) : List α := l.settled ++ l.pending

def Ledger.push (l : Ledger α) (tokens : List α) (n : Nat) : Ledger α :=
  ⟨l.settled ++ tokens.take n, tokens.drop n⟩

@[simp] theorem Ledger.kept_push (l : Ledger α) (tokens : List α) (n : Nat) :
    (l.push tokens n).kept = l.settled ++ tokens := by
  rw [kept, push, List.append_assoc, List.take_append_drop]

def Ledger.flush (l : Ledger α) : Ledger α := ⟨l.kept, []⟩

def letters (key : α → List κ) (tokens : List α) : List κ := tokens.flatMap key

@[simp] theorem letters_append (key : α → List κ) (a b : List α) :
    letters key (a ++ b) = letters key a ++ letters key b := List.flatMap_append

def splice (pending input : List α) (i j : Nat) : List α := pending.take i ++ input.drop j

/-- Runs over a list of inputs; the flag tells whether any input was spliced. -/
inductive Run (key : α → List κ) : List (List α) → Bool → Ledger α → Prop
  | empty : Run key [] false ⟨[], []⟩
  | follow {inputs : List (List α)} {spliced : Bool} {l : Ledger α} (input : List α) (n : Nat)
      (h : Run key inputs spliced l) : Run key (inputs ++ [input]) spliced (l.flush.push input n)
  | splice {inputs : List (List α)} {spliced : Bool} {l : Ledger α} (input : List α) (i j n : Nat)
      (h : Run key inputs spliced l)
      (hOld : (letters key l.pending).Sublist (letters key (splice l.pending input i j)))
      (hNew : (letters key input).Sublist (letters key (splice l.pending input i j))) :
      Run key (inputs ++ [input]) true (l.push (splice l.pending input i j) n)

section

variable {key : α → List κ} {inputs : List (List α)} {spliced : Bool} {l : Ledger α}

theorem Run.letters_sublist (h : Run key inputs spliced l) :
    ∀ input ∈ inputs, (letters key input).Sublist (letters key l.kept) := by
  induction h with
  | empty => simp
  | @follow inputs spliced l input n h ih =>
    intro x hx
    rw [Ledger.kept_push, letters_append]
    rcases List.mem_append.mp hx with hx | hx
    · exact (ih x hx).trans (List.sublist_append_left _ _)
    · rw [List.mem_singleton.mp hx]
      exact List.sublist_append_right _ _
  | @splice inputs spliced l input i j n h hOld hNew ih =>
    intro x hx
    rw [Ledger.kept_push, letters_append]
    rcases List.mem_append.mp hx with hx | hx
    · have hKept := ih x hx
      rw [Ledger.kept, letters_append] at hKept
      exact hKept.trans (hOld.append_left _)
    · rw [List.mem_singleton.mp hx]
      exact hNew.trans (List.sublist_append_right _ _)

theorem Run.kept_eq_flatten (h : Run key inputs spliced l) (hDirect : spliced = false) :
    l.kept = inputs.flatten := by
  induction h with
  | empty => rfl
  | @follow inputs spliced l input n h ih =>
    rw [Ledger.kept_push, List.flatten_append]
    simp [Ledger.flush, ih hDirect]
  | splice => cases hDirect

/-- The token at the given position of the given input. -/
def From (inputs : List (List α)) (origin : Nat × Nat) (token : α) : Prop :=
  ∃ input, inputs[origin.1]? = some input ∧ input[origin.2]? = some token

theorem From.snoc {origin : Nat × Nat} {token : α} (h : From inputs origin token)
    (input : List α) : From (inputs ++ [input]) origin token := by
  obtain ⟨x, hx, hToken⟩ := h
  refine ⟨x, ?_, hToken⟩
  rw [List.getElem?_append_left (List.getElem?_eq_some_iff.mp hx).1]
  exact hx

theorem From.lt {origin : Nat × Nat} {token : α} (h : From inputs origin token) :
    origin.1 < inputs.length := by
  obtain ⟨x, hx, -⟩ := h
  exact (List.getElem?_eq_some_iff.mp hx).1

def positions (w from' upto : Nat) : List (Nat × Nat) :=
  (List.range' from' (upto - from')).map fun k => (w, k)

theorem positions_nodup (w from' upto : Nat) : (positions w from' upto).Nodup :=
  List.Nodup.map (fun _ _ h => (Prod.mk.inj h).2) List.nodup_range'

theorem positions_fst {w from' upto : Nat} {origin : Nat × Nat}
    (h : origin ∈ positions w from' upto) : origin.1 = w := by
  obtain ⟨k, -, rfl⟩ := List.mem_map.mp h
  rfl

theorem positions_from (inputs : List (List α)) (input : List α) (j : Nat) :
    List.Forall₂ (From (inputs ++ [input])) (positions inputs.length j input.length)
      (input.drop j) := by
  rw [List.forall₂_iff_get]
  refine ⟨by simp [positions], ?_⟩
  intro k hk hk'
  refine ⟨input, by simp [positions], ?_⟩
  simp only [List.length_drop] at hk'
  simp only [positions, List.get_eq_getElem, List.getElem_map, List.getElem_range',
    List.getElem_drop, Nat.one_mul]
  rw [List.getElem?_eq_getElem (by omega)]

/-- Old origins all name earlier inputs, so the new input's positions are new. -/
theorem nodup_append_positions {origins : List (Nat × Nat)} {tokens : List α}
    (hNodup : origins.Nodup) (hFrom : List.Forall₂ (From inputs) origins tokens) (j upto : Nat) :
    (origins ++ positions inputs.length j upto).Nodup := by
  refine List.Nodup.append hNodup (positions_nodup _ _ _) ?_
  intro origin hOld hNew
  obtain ⟨k, hk, hEq⟩ := List.mem_iff_getElem.mp hOld
  have hLength := hFrom.length_eq
  have hOrigin := (List.forall₂_iff_get.mp hFrom).2 k hk (by omega)
  have hLt := hOrigin.lt
  simp only [List.get_eq_getElem, hEq] at hLt
  rw [positions_fst hNew] at hLt
  omega

theorem Run.origins (h : Run key inputs spliced l) :
    ∃ origins : List (Nat × Nat), origins.Nodup ∧
      List.Forall₂ (From inputs) origins l.kept := by
  induction h with
  | empty => exact ⟨[], List.nodup_nil, .nil⟩
  | @follow inputs spliced l input n h ih =>
    obtain ⟨origins, hNodup, hFrom⟩ := ih
    refine ⟨origins ++ positions inputs.length 0 input.length,
      nodup_append_positions hNodup hFrom _ _, ?_⟩
    rw [Ledger.kept_push]
    exact List.rel_append (hFrom.imp fun _ _ hToken => hToken.snoc input)
      (by simpa using positions_from inputs input 0)
  | @splice inputs spliced l input i j n h hOld hNew ih =>
    obtain ⟨origins, hNodup, hFrom⟩ := ih
    have hSettled := List.forall₂_take_append origins l.settled l.pending hFrom
    have hPending := List.forall₂_drop_append origins l.settled l.pending hFrom
    have hKept : List.Forall₂ (From inputs)
        (origins.take l.settled.length ++ (origins.drop l.settled.length).take i)
        (l.settled ++ l.pending.take i) :=
      List.rel_append hSettled (List.forall₂_take i hPending)
    have hSub : (origins.take l.settled.length ++
        (origins.drop l.settled.length).take i).Nodup := by
      rw [← List.take_append_drop l.settled.length origins] at hNodup
      exact List.Nodup.sublist ((List.take_sublist _ _).append_left _) hNodup
    refine ⟨_, nodup_append_positions hSub hKept j input.length, ?_⟩
    rw [Ledger.kept_push, OverlapJoin.splice, ← List.append_assoc]
    exact List.rel_append (hKept.imp fun _ _ hToken => hToken.snoc input)
      (positions_from inputs input j)

end

end OverlapJoin
