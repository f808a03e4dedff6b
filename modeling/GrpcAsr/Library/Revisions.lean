import Mathlib.Data.List.Basic
import Mathlib.Data.List.Infix
import Mathlib.Data.List.Nodup
import GrpcAsr.Library.History

/-!
# Logs of numbered revisions

An entry of a log revises a record: it names the record, carries a revision number and
may be the record's final revision. `lastOfEach` keeps the latest revision of every
record in the order of the last updates. A `Session` is a log written by one author who
has at most one unfinished record at a time.
-/

namespace Revisions

universe u v

/-- How an entry is read: the record it revises, its number, and whether it is the last. -/
structure Reading (α : Type u) (κ : Type v) where
  id : α → κ
  revision : α → Nat
  final : α → Bool

namespace Reading

variable {α : Type u} {κ : Type v} (R : Reading α κ)

def Unfinished (log : List α) (k : κ) : Prop :=
  (∃ a ∈ log, R.id a = k) ∧ ∀ a ∈ log, R.id a = k → R.final a = false

/-- Logs with at most one unfinished record, whose latest entry is given. -/
inductive Session : List α → Option α → Prop
  | empty : Session [] none
  | start {log : List α} (a : α) (h : Session log none) (hNew : ∀ b ∈ log, R.id b ≠ R.id a)
      (hFirst : R.revision a = 1) : Session (log ++ [a]) (if R.final a then none else some a)
  | revise {log : List α} {b : α} (a : α) (h : Session log (some b)) (hId : R.id a = R.id b)
      (hNext : R.revision a = R.revision b + 1) :
      Session (log ++ [a]) (if R.final a then none else some a)

namespace Session

variable {R} {log : List α} {current : Option α}

theorem before {post : List α} (h : R.Session (log ++ post) current) : ∃ o, R.Session log o := by
  induction post using List.reverseRecOn generalizing current with
  | nil => exact ⟨current, by simpa using h⟩
  | append_singleton post a ih =>
    rw [← List.append_assoc] at h
    generalize hLog : log ++ post ++ [a] = whole at h
    cases h with
    | empty => simp at hLog
    | start b h hNew =>
      obtain ⟨rfl, -⟩ := List.append_inj' hLog rfl
      exact ih h
    | revise b h =>
      obtain ⟨rfl, -⟩ := List.append_inj' hLog rfl
      exact ih h

/-- Every record but the current one is final. -/
theorem unfinished_current (h : R.Session log current) {k : κ} (hOpen : R.Unfinished log k) :
    ∃ b, current = some b ∧ R.id b = k := by
  obtain ⟨⟨c, hMem, hId⟩, hAll⟩ := hOpen
  have hLast : ∀ {log : List α} {a : α}, (∀ b ∈ log ++ [a], R.id b = k → R.final b = false) →
      R.id a = k → ∃ b, (if R.final a then none else some a) = some b ∧ R.id b = k := by
    intro log a hAll hSame
    refine ⟨a, ?_, hSame⟩
    rw [hAll a (by simp) hSame]
    rfl
  induction h with
  | empty => cases hMem
  | @start log a h hNew hFirst ih =>
    rcases List.mem_append.mp hMem with hOld | hNew'
    · obtain ⟨b, hNone, -⟩ := ih (fun b hb => hAll b (List.mem_append_left _ hb)) hOld
      cases hNone
    · rw [List.mem_singleton.mp hNew'] at hId
      exact hLast hAll hId
  | @revise log b a h hSame hNext ih =>
    rcases List.mem_append.mp hMem with hOld | hNew'
    · obtain ⟨b', hCurrent, hId'⟩ := ih (fun b hb => hAll b (List.mem_append_left _ hb)) hOld
      cases hCurrent
      exact hLast hAll (hSame.trans hId')
    · rw [List.mem_singleton.mp hNew'] at hId
      exact hLast hAll hId

theorem current_open (h : R.Session log current) {b : α} (hCurrent : current = some b) :
    ∀ c ∈ log, R.id c = R.id b → R.final c = false := by
  induction h generalizing b with
  | empty => cases hCurrent
  | @start log a h hNew hFirst ih =>
    split at hCurrent
    · cases hCurrent
    · rename_i hOpen
      cases hCurrent
      intro c hc hSame
      rcases List.mem_append.mp hc with hOld | hLast
      · exact absurd hSame (hNew c hOld)
      · rw [List.mem_singleton.mp hLast]
        simpa using hOpen
  | @revise log b' a h hId hNext ih =>
    split at hCurrent
    · cases hCurrent
    · rename_i hOpen
      cases hCurrent
      intro c hc hSame
      rcases List.mem_append.mp hc with hOld | hLast
      · exact ih rfl c hOld (hSame.trans hId)
      · rw [List.mem_singleton.mp hLast]
        simpa using hOpen

/-- Nothing follows a final entry of the same record. -/
theorem finals_last (h : R.Session log current) :
    log.Pairwise fun a b => R.final a = true → R.id b ≠ R.id a := by
  induction h with
  | empty => exact List.Pairwise.nil
  | @start log a h hNew hFirst ih =>
    refine List.pairwise_append.mpr ⟨ih, List.pairwise_singleton _ _, ?_⟩
    intro b hb c hc _
    rw [List.mem_singleton.mp hc]
    exact (hNew b hb).symm
  | @revise log b a h hId hNext ih =>
    refine List.pairwise_append.mpr ⟨ih, List.pairwise_singleton _ _, ?_⟩
    intro c hc d hd hFinal hSame
    rw [List.mem_singleton.mp hd, hId] at hSame
    rw [h.current_open rfl c hc hSame.symm] at hFinal
    cases hFinal

end Session

variable [DecidableEq κ]

def of (log : List α) (k : κ) : List α := log.filter fun a => R.id a = k

def latest (log : List α) (k : κ) : Option α := (R.of log k).getLast?

@[simp] theorem of_append (log log' : List α) (k : κ) :
    R.of (log ++ log') k = R.of log k ++ R.of log' k := List.filter_append ..

theorem of_eq_nil {log : List α} {k : κ} (h : ∀ a ∈ log, R.id a ≠ k) : R.of log k = [] := by
  simpa [of, List.filter_eq_nil_iff] using h

theorem of_singleton (a : α) (k : κ) : R.of [a] k = if R.id a = k then [a] else [] := by
  by_cases h : R.id a = k <;> simp [of, h]

theorem latest_snoc (log : List α) (a : α) (k : κ) :
    R.latest (log ++ [a]) k = if R.id a = k then some a else R.latest log k := by
  rw [latest, of_append, of_singleton]
  split <;> simp [latest]

theorem latest_mem {log : List α} {k : κ} {a : α} (h : R.latest log k = some a) :
    a ∈ log ∧ R.id a = k := by
  have hMem := List.mem_of_getLast? h
  simpa [of] using hMem

/-- The latest revision of every record, in the order of the last updates. -/
def lastOfEach : List α → List α
  | [] => []
  | a :: log => if log.any fun b => R.id b = R.id a then lastOfEach log else a :: lastOfEach log

theorem lastOfEach_snoc (log : List α) (a : α) :
    R.lastOfEach (log ++ [a]) = (R.lastOfEach log).filter (fun b => R.id b ≠ R.id a) ++ [a] := by
  induction log with
  | nil => simp [lastOfEach]
  | cons b log ih =>
    rw [List.cons_append, lastOfEach, lastOfEach, ih, List.any_append]
    by_cases hLater : log.any (fun c => R.id c = R.id b) = true
    · simp [hLater]
    · by_cases hSame : R.id a = R.id b
      · simp [hLater, hSame]
      · have hOther : R.id b ≠ R.id a := fun h => hSame h.symm
        simp [hLater, hSame, hOther]

theorem latest_of_mem_lastOfEach {log : List α} {a : α} (h : a ∈ R.lastOfEach log) :
    R.latest log (R.id a) = some a := by
  induction log using List.reverseRecOn with
  | nil => cases h
  | append_singleton log b ih =>
    rw [lastOfEach_snoc, List.mem_append, List.mem_filter, List.mem_singleton] at h
    rw [latest_snoc]
    rcases h with ⟨hMem, hOther⟩ | rfl
    · have hDiffers : R.id a ≠ R.id b := by simpa using hOther
      rw [if_neg hDiffers.symm]
      exact ih hMem
    · rw [if_pos rfl]

theorem lastOfEach_nodup (log : List α) : ((R.lastOfEach log).map R.id).Nodup := by
  induction log using List.reverseRecOn with
  | nil => exact List.nodup_nil
  | append_singleton log a ih =>
    rw [lastOfEach_snoc, List.map_append, List.nodup_append]
    refine ⟨ih.sublist (List.filter_sublist.map _), List.nodup_singleton _, ?_⟩
    intro x hx y hy
    obtain ⟨b, hb, rfl⟩ := List.mem_map.mp hx
    rw [List.map_singleton, List.mem_singleton] at hy
    rw [hy]
    simpa using (List.mem_filter.mp hb).2

/-- Entry `a` may follow the log: its record is not final and it carries the next number. -/
def Continues (log : List α) (a : α) : Prop :=
  ∀ prior, R.latest log (R.id a) = some prior →
    R.final prior = false ∧ R.revision a = R.revision prior + 1

/-- Every entry of the log continues the entries before it. -/
def Chained (log : List α) : Prop :=
  ∀ before a after, log = before ++ a :: after → R.Continues before a

theorem chained_nil : R.Chained [] := by
  intro before a after h
  simp at h

theorem chained_snoc {log : List α} {a : α} (h : R.Chained log) (ha : R.Continues log a) :
    R.Chained (log ++ [a]) := by
  intro before b after hSplit
  rcases History.snoc_eq_append_cons.mp hSplit with ⟨rfl, rfl, -⟩ | ⟨rest, -, hLog⟩
  · exact ha
  · exact h before b rest hLog

namespace Chained

variable {R} {log : List α}

theorem init {a : α} (h : R.Chained (log ++ [a])) : R.Chained log := by
  intro before b after hSplit
  exact h before b (after ++ [a]) (by rw [hSplit, List.append_assoc, List.cons_append])

theorem last {a : α} (h : R.Chained (log ++ [a])) : R.Continues log a := h log a [] rfl

/-- The numbers of one record follow each other without a gap. -/
theorem consecutive (h : R.Chained log) (k : κ) :
    ∃ first, (R.of log k).map R.revision = List.range' first (R.of log k).length := by
  induction log using List.reverseRecOn with
  | nil => exact ⟨0, rfl⟩
  | append_singleton log a ih =>
    obtain ⟨first, hNumbers⟩ := ih h.init
    rw [of_append, of_singleton]
    split
    · rename_i hSame
      cases hLatest : R.latest log k with
      | none =>
        rw [latest, List.getLast?_eq_none_iff] at hLatest
        rw [hLatest]
        exact ⟨R.revision a, rfl⟩
      | some prior =>
        have hNext := (h.last prior (hSame ▸ hLatest)).2
        have hNumber : ((R.of log k).map R.revision).getLast? = some (R.revision prior) := by
          rw [List.getLast?_map, ← latest, hLatest]
          rfl
        rw [hNumbers, List.getLast?_range'] at hNumber
        split at hNumber
        · cases hNumber
        · simp only [Option.some.injEq] at hNumber
          have hAt : R.revision a = first + (R.of log k).length := by omega
          refine ⟨first, ?_⟩
          rw [List.map_append, hNumbers, List.map_singleton, List.length_append,
            List.length_singleton, List.range'_concat, Nat.one_mul, hAt]
    · rw [List.append_nil]
      exact ⟨first, hNumbers⟩

theorem final_latest (h : R.Chained log) {b : α} (hMem : b ∈ log) (hFinal : R.final b = true) :
    R.latest log (R.id b) = some b := by
  induction log using List.reverseRecOn with
  | nil => cases hMem
  | append_singleton log a ih =>
    rw [latest_snoc]
    rcases List.mem_append.mp hMem with hOld | hLast
    · have hLatest := ih h.init hOld
      split
      · rename_i hSame
        have hOpen := (h.last b (hSame ▸ hLatest)).1
        rw [hFinal] at hOpen
        cases hOpen
      · exact hLatest
    · rw [List.mem_singleton.mp hLast, if_pos rfl]

/-- Nothing follows a final entry of the same record. -/
theorem finals_last (h : R.Chained log) :
    log.Pairwise fun a b => R.final a = true → R.id b ≠ R.id a := by
  induction log using List.reverseRecOn with
  | nil => exact List.Pairwise.nil
  | append_singleton log a ih =>
    refine List.pairwise_append.mpr ⟨ih h.init, List.pairwise_singleton _ _, ?_⟩
    intro b hb c hc hFinal hSame
    rw [List.mem_singleton.mp hc] at hSame
    have hLatest := h.init.final_latest hb hFinal
    have hOpen := (h.last b (hSame ▸ hLatest)).1
    rw [hFinal] at hOpen
    cases hOpen

end Chained

namespace Session

variable {R} {log : List α} {current : Option α}

theorem current_latest (h : R.Session log current) {b : α} (hCurrent : current = some b) :
    R.latest log (R.id b) = some b ∧ R.final b = false := by
  have hLast : ∀ {log : List α} {a : α}, (if R.final a then none else some a) = some b →
      R.latest (log ++ [a]) (R.id b) = some b ∧ R.final b = false := by
    intro log a hEq
    split at hEq
    · cases hEq
    · rename_i hOpen
      cases hEq
      rw [latest_snoc, if_pos rfl]
      exact ⟨rfl, by simpa using hOpen⟩
  cases h with
  | empty => cases hCurrent
  | start a => exact hLast hCurrent
  | revise a => exact hLast hCurrent

/-- Every entry continues the log before it. -/
theorem continues_last {a : α} (h : R.Session (log ++ [a]) current) : R.Continues log a := by
  generalize hLog : log ++ [a] = whole at h
  cases h with
  | empty => simp at hLog
  | start b h hNew =>
    obtain ⟨rfl, hEq⟩ := List.append_inj' hLog rfl
    cases hEq
    intro prior hPrior
    obtain ⟨hMem, hId⟩ := R.latest_mem hPrior
    exact absurd hId (hNew prior hMem)
  | @revise log' b c h hId hNext =>
    obtain ⟨rfl, hEq⟩ := List.append_inj' hLog rfl
    cases hEq
    intro prior hPrior
    obtain ⟨hLatest, hOpen⟩ := h.current_latest rfl
    rw [hId, hLatest] at hPrior
    cases hPrior
    exact ⟨hOpen, hNext⟩

/-- The entries of one record are numbered from one without a gap. -/
theorem revisions (h : R.Session log current) (k : κ) :
    (R.of log k).map R.revision = List.range' 1 (R.of log k).length := by
  have hSnoc : ∀ {log : List α} {a : α},
      (R.of log k).map R.revision = List.range' 1 (R.of log k).length →
      (R.id a = k → R.revision a = (R.of log k).length + 1) →
      (R.of (log ++ [a]) k).map R.revision = List.range' 1 (R.of (log ++ [a]) k).length := by
    intro log a hLog hNumber
    rw [of_append, of_singleton]
    split
    · rename_i hSame
      rw [List.map_append, hLog, List.map_singleton, hNumber hSame, List.length_append,
        List.length_singleton, List.range'_concat, Nat.one_mul, Nat.add_comm 1]
    · simpa using hLog
  induction h with
  | empty => rfl
  | @start log a h hNew hFirst ih =>
    refine hSnoc ih fun hSame => ?_
    rw [R.of_eq_nil fun b hb => hSame ▸ hNew b hb]
    exact hFirst
  | @revise log b a h hId hNext ih =>
    refine hSnoc ih fun hSame => ?_
    obtain ⟨hLatest, -⟩ := h.current_latest rfl
    rw [← hId, hSame, latest] at hLatest
    have hNumber : ((R.of log k).map R.revision).getLast? = some (R.revision b) := by
      rw [List.getLast?_map, hLatest]
      rfl
    rw [ih, List.getLast?_range'] at hNumber
    split at hNumber
    · cases hNumber
    · simp only [Option.some.injEq] at hNumber
      omega

end Session

end Reading

end Revisions
