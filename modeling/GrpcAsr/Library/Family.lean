import Mathlib.Data.List.AList
import Mathlib.Data.List.Induction
import GrpcAsr.Library.Emitting

/-!
# Families of machines

Machines of one kind run side by side, one for each key, and each is opened by the first
message for its key. What a run of the family leaves and hands out for one key is what the
machine of that key does by itself with its own messages, in their order, however the
messages of the keys were mixed.
-/

namespace Family

open Emitting

universe u v w x y

/-- How a machine of each key is opened, what it does with a message, and how many there may be. -/
structure Machines (κ : Type u) (σ : Type v) (ι : Type w) (ω : Type x) (ε : Type y) where
  openAt : κ → Except ε σ
  step : κ → σ → ι → Outcome σ ω ε
  limit : Nat
  full : ε

variable {κ : Type u} {σ : Type v} {ι : Type w} {ω : Type x} {ε : Type y} [DecidableEq κ]

/-- The machines opened so far. -/
abbrev Members (κ : Type u) (σ : Type v) := AList fun _ : κ => σ

namespace Machines

variable (m : Machines κ σ ι ω ε)

/-- What the machine of the key does with its message. -/
def feed (members : Members κ σ) (message : κ × ι) (s : σ) :
    Outcome (Members κ σ) (κ × ω) ε :=
  ⟨members.insert message.1 (m.step message.1 s message.2).state,
    (m.step message.1 s message.2).emitted.map (Prod.mk message.1),
    (m.step message.1 s message.2).error⟩

/-- The machine of a key takes a message, after it has been opened. -/
def deliver (members : Members κ σ) (message : κ × ι) : Outcome (Members κ σ) (κ × ω) ε :=
  match members.lookup message.1 with
  | some s => m.feed members message s
  | none =>
    if m.limit ≤ members.keys.length then ⟨members, [], some m.full⟩
    else
      match m.openAt message.1 with
      | .error e => ⟨members, [], some e⟩
      | .ok s => m.feed members message s

def run (messages : List (κ × ι)) : Outcome (Members κ σ) (κ × ω) ε := runAll m.deliver ∅ messages

/-- What is for one key. -/
def own (key : κ) {α : Type _} (tagged : List (κ × α)) : List α :=
  tagged.filterMap fun p => if p.1 = key then some p.2 else none

variable {key : κ} {α : Type _}

theorem mem_own {x : α} {tagged : List (κ × α)} : x ∈ own key tagged ↔ (key, x) ∈ tagged := by
  rw [own, List.mem_filterMap]
  constructor
  · rintro ⟨⟨key', x'⟩, hMem, hOwn⟩
    split at hOwn
    next hKey =>
      obtain rfl := Option.some.inj hOwn
      exact hKey ▸ hMem
    · cases hOwn
  · exact fun hMem => ⟨(key, x), hMem, if_pos rfl⟩

theorem own_append (a b : List (κ × α)) : own key (a ++ b) = own key a ++ own key b :=
  List.filterMap_append

theorem own_same (key : κ) (a : List α) : own key (a.map (Prod.mk key)) = a := by
  rw [own, List.filterMap_map]
  refine Eq.trans (List.filterMap_congr fun x _ => ?_) List.filterMap_some
  exact if_pos rfl

theorem own_other {key' : κ} (h : key' ≠ key) (a : List α) :
    own key (a.map (Prod.mk key')) = [] := by
  rw [own, List.filterMap_map]
  exact List.filterMap_eq_nil_iff.mpr fun x _ => if_neg h

theorem own_singleton {key' : κ} (x : α) :
    own key [(key', x)] = if key' = key then [x] else [] := by
  by_cases h : key' = key
  · rw [if_pos h, ← own_same key [x], List.map_singleton, h]
  · rw [if_neg h]
    exact own_other h [x]

theorem own_cons (message : κ × α) (rest : List (κ × α)) :
    own key (message :: rest) = (if message.1 = key then [message.2] else []) ++ own key rest := by
  rw [← own_singleton message.2, ← own_append]
  rfl

/-- A message to several machines reaches each of them once. -/
theorem own_broadcast {keys : List κ} (hNodup : keys.Nodup) (key : κ) (x : α) :
    (key ∈ keys → own key (keys.map fun key' => (key', x)) = [x]) ∧
      (key ∉ keys → own key (keys.map fun key' => (key', x)) = []) := by
  induction keys with
  | nil => exact ⟨fun hMem => absurd hMem List.not_mem_nil, fun _ => rfl⟩
  | cons key' keys ih =>
    obtain ⟨hFresh, hNodup⟩ := List.nodup_cons.mp hNodup
    obtain ⟨hMember, hStranger⟩ := ih hNodup
    rw [List.map_cons, own_cons]
    by_cases hKey : key' = key
    · subst hKey
      rw [if_pos rfl, hStranger hFresh]
      exact ⟨fun _ => rfl, fun hNot => absurd List.mem_cons_self hNot⟩
    · rw [if_neg hKey, List.nil_append]
      refine ⟨fun hMem => hMember ?_, fun hNot => hStranger ?_⟩
      · exact (List.mem_cons.mp hMem).resolve_left fun hEq => hKey hEq.symm
      · exact fun hMem => hNot (List.mem_cons_of_mem key' hMem)

variable {m}

/-- The machine of a key has not been opened, or it stands where these messages bring it by
itself. -/
inductive Follows (m : Machines κ σ ι ω ε) (key : κ) (taken : List ι) (members : Members κ σ)
    (emitted : List (κ × ω)) (error : Option ε) : Prop
  | closed (hTaken : taken = []) (hState : members.lookup key = none)
      (hEmitted : own key emitted = []) (hError : error = none)
  | opened (first : σ) (hTaken : taken ≠ []) (hOpen : m.openAt key = .ok first)
      (hState : members.lookup key = some (runAll (m.step key) first taken).state)
      (hEmitted : own key emitted = (runAll (m.step key) first taken).emitted)
      (hError : (runAll (m.step key) first taken).error = error)

variable {members : Members κ σ} {taken : List ι} {emitted : List (κ × ω)} {error : Option ε}
  {message : κ × ι}

inductive Delivered (m : Machines κ σ ι ω ε) (members : Members κ σ) (message : κ × ι) :
    Outcome (Members κ σ) (κ × ω) ε → Prop
  | fed (s : σ) (hState : members.lookup message.1 = some s) :
    Delivered m members message (m.feed members message s)
  | opened (s : σ) (hState : members.lookup message.1 = none)
      (hRoom : members.keys.length < m.limit) (hOpen : m.openAt message.1 = .ok s) :
    Delivered m members message (m.feed members message s)
  | full (hState : members.lookup message.1 = none) (hFull : m.limit ≤ members.keys.length) :
    Delivered m members message ⟨members, [], some m.full⟩
  | refused (e : ε) (hState : members.lookup message.1 = none)
      (hOpen : m.openAt message.1 = .error e) : Delivered m members message ⟨members, [], some e⟩

theorem deliver_cases (m : Machines κ σ ι ω ε) (members : Members κ σ) (message : κ × ι) :
    Delivered m members message (m.deliver members message) := by
  unfold deliver
  cases hState : members.lookup message.1 with
  | some s => exact .fed s hState
  | none =>
    by_cases hFull : m.limit ≤ members.keys.length
    · simp only [if_pos hFull]
      exact .full hState hFull
    · simp only [if_neg hFull]
      cases hOpen : m.openAt message.1 with
      | error e => exact .refused e hState hOpen
      | ok s => exact .opened s hState (Nat.lt_of_not_le hFull) hOpen

theorem Follows.elsewhere (h : Follows m key taken members emitted error) (hKey : message.1 ≠ key) :
    Follows m key taken (m.deliver members message).state
      (emitted ++ (m.deliver members message).emitted) error := by
  have hFrame : (m.deliver members message).state.lookup key = members.lookup key ∧
      own key (m.deliver members message).emitted = [] := by
    have hCases := deliver_cases m members message
    generalize m.deliver members message = o at hCases ⊢
    cases hCases with
    | fed s => exact ⟨AList.lookup_insert_ne hKey.symm, own_other hKey _⟩
    | opened s => exact ⟨AList.lookup_insert_ne hKey.symm, own_other hKey _⟩
    | full => exact ⟨rfl, rfl⟩
    | refused e => exact ⟨rfl, rfl⟩
  cases h with
  | closed hTaken hState hEmitted hError =>
    refine .closed hTaken (hFrame.1.trans hState) ?_ hError
    rw [own_append, hEmitted, hFrame.2]
    rfl
  | opened first hTaken hOpen hState hEmitted hError =>
    refine .opened first hTaken hOpen (hFrame.1.trans hState) ?_ hError
    rw [own_append, hFrame.2, List.append_nil, hEmitted]

/-- The machine took its message, or there was none and none was opened. -/
theorem Follows.here (message : κ × ι) (h : Follows m message.1 taken members emitted none) :
    Follows m message.1 (taken ++ [message.2]) (m.deliver members message).state
        (emitted ++ (m.deliver members message).emitted) (m.deliver members message).error ∨
      taken = [] ∧ (m.deliver members message).state = members ∧
        (m.deliver members message).emitted = [] ∧ members.lookup message.1 = none ∧
        ∃ e, (m.deliver members message).error = some e ∧
          (e = m.full ∧ m.limit ≤ members.keys.length ∨ m.openAt message.1 = .error e) := by
  have hFed {first : σ} (hOpen : m.openAt message.1 = .ok first)
      (hEmitted : own message.1 emitted = (runAll (m.step message.1) first taken).emitted)
      (hOk : (runAll (m.step message.1) first taken).error = none) :
      Follows m message.1 (taken ++ [message.2])
        (m.feed members message (runAll (m.step message.1) first taken).state).state
        (emitted ++ (m.feed members message (runAll (m.step message.1) first taken).state).emitted)
        (m.feed members message (runAll (m.step message.1) first taken).state).error := by
    have hNext := runAll_append (m.step message.1) first taken [message.2]
    rw [Outcome.next_of_none hOk] at hNext
    simp only [runAll_singleton] at hNext
    refine .opened first (List.append_ne_nil_of_right_ne_nil _ (List.cons_ne_nil _ _)) hOpen ?_ ?_ ?_
    · rw [hNext]
      exact AList.lookup_insert members
    · rw [hNext, own_append, hEmitted]
      exact congrArg _ (own_same _ _)
    · rw [hNext]
      rfl
  have hCases := deliver_cases m members message
  generalize m.deliver members message = o at hCases ⊢
  cases hCases with
  | fed s hLookup =>
    cases h with
    | closed hTaken hState => exact absurd (hState.symm.trans hLookup) (Option.some_ne_none s).symm
    | opened first hTaken hOpen hState hEmitted hOk =>
      obtain rfl := Option.some.inj (hState.symm.trans hLookup)
      exact .inl (hFed hOpen hEmitted hOk)
  | opened s hLookup hRoom hOpen =>
    cases h with
    | closed hTaken hState hEmitted =>
      subst hTaken
      exact .inl (hFed hOpen hEmitted rfl)
    | opened first hTaken hOpen' hState => exact absurd (hLookup.symm.trans hState) (Option.some_ne_none _).symm
  | full hLookup hFull =>
    cases h with
    | closed hTaken => exact .inr ⟨hTaken, rfl, rfl, hLookup, m.full, rfl, .inl ⟨rfl, hFull⟩⟩
    | opened first hTaken hOpen hState => exact absurd (hLookup.symm.trans hState) (Option.some_ne_none _).symm
  | refused e hLookup hOpen =>
    cases h with
    | closed hTaken => exact .inr ⟨hTaken, rfl, rfl, hLookup, e, rfl, .inr hOpen⟩
    | opened first hTaken hOpen' hState => exact absurd (hLookup.symm.trans hState) (Option.some_ne_none _).symm

theorem run_append (first later : List (κ × ι)) :
    m.run (first ++ later) =
      (m.run first).next fun members => runAll m.deliver members later := runAll_append ..

theorem run_snoc (messages : List (κ × ι)) (message : κ × ι) :
    m.run (messages ++ [message]) =
      (m.run messages).next fun members => m.deliver members message := by
  rw [run, runAll_append]
  simp only [runAll_singleton]
  rfl

/-- After a run without an error every machine stands where its own messages bring it. -/
theorem run_follows (messages : List (κ × ι)) (hOk : (m.run messages).error = none) (key : κ) :
    Follows m key (own key messages) (m.run messages).state (m.run messages).emitted none := by
  induction messages using List.reverseRecOn with
  | nil => exact .closed rfl (AList.lookup_empty key) rfl rfl
  | append_singleton messages message ih =>
    rw [run_snoc] at hOk ⊢
    obtain ⟨hBefore, hLast⟩ := Outcome.next_error_none hOk
    have hFollows := ih hBefore
    rw [Outcome.next_of_none hBefore]
    obtain ⟨key', x⟩ := message
    rw [own_append, own_singleton]
    by_cases hKey : key' = key
    · subst hKey
      rw [if_pos rfl]
      have hHere := hFollows.here (key', x)
      rcases hHere with hFed | ⟨-, -, -, -, e, hError, -⟩
      · rw [hLast] at hFed
        exact hFed
      · rw [hLast] at hError
        cases hError
    · rw [if_neg hKey, List.append_nil]
      exact hFollows.elsewhere hKey

/-- How a run failed: with the message of one key, whose machine failed at it or could not be
opened for it. -/
structure Failed (m : Machines κ σ ι ω ε) (messages : List (κ × ι)) (e : ε)
    (before : List (κ × ι)) (message : κ × ι) (later : List (κ × ι)) : Prop where
  split : messages = before ++ message :: later
  others : ∀ key, key ≠ message.1 →
    Follows m key (own key before) (m.run messages).state (m.run messages).emitted none
  blamed : Follows m message.1 (own message.1 before ++ [message.2]) (m.run messages).state
      (m.run messages).emitted (some e) ∨
    Follows m message.1 [] (m.run messages).state (m.run messages).emitted none ∧
      own message.1 before = [] ∧
      (e = m.full ∧ m.limit ≤ (m.run messages).state.keys.length ∨ m.openAt message.1 = .error e)

theorem run_failed (messages : List (κ × ι)) {e : ε} (hError : (m.run messages).error = some e) :
    ∃ before message later, Failed m messages e before message later := by
  induction messages using List.reverseRecOn with
  | nil => cases hError
  | append_singleton messages message ih =>
    cases hBefore : (m.run messages).error with
    | some e' =>
      have hSame : m.run (messages ++ [message]) = m.run messages := by
        rw [run_snoc, Outcome.next_of_error hBefore]
      rw [hSame] at hError
      obtain ⟨before, blamed, later, hSplit, hOthers, hBlamed⟩ := ih hError
      refine ⟨before, blamed, later ++ [message], ?_, ?_, ?_⟩
      · rw [hSplit, List.append_assoc, List.cons_append]
      · rw [hSame]
        exact hOthers
      · rw [hSame]
        exact hBlamed
    | none =>
      have hFollows := run_follows messages hBefore
      have hLast := run_snoc (m := m) messages message
      rw [Outcome.next_of_none hBefore] at hLast
      have hAt : (m.deliver (m.run messages).state message).error = some e := by
        rw [hLast] at hError
        exact hError
      refine ⟨messages, message, [], rfl, fun key hKey => ?_, ?_⟩
      · rw [hLast]
        exact (hFollows key).elsewhere hKey.symm
      · rw [hLast]
        rcases (hFollows message.1).here message with hFed | ⟨hTaken, hState, hEmitted, hNone, e', hWhy, hCause⟩
        · rw [hAt] at hFed
          exact .inl hFed
        · obtain rfl := Option.some.inj (hAt.symm.trans hWhy)
          have hClosed := hFollows message.1
          rw [hTaken] at hClosed
          simp only [hState, hEmitted, List.append_nil]
          exact .inr ⟨hClosed, hTaken, hCause⟩

/-- There are never more machines than allowed. -/
theorem run_limit (messages : List (κ × ι)) : (m.run messages).state.keys.length ≤ m.limit := by
  induction messages using List.reverseRecOn with
  | nil => exact Nat.zero_le _
  | append_singleton messages message ih =>
    rw [run_snoc]
    cases hBefore : (m.run messages).error with
    | some e => rwa [Outcome.next_of_error hBefore]
    | none =>
      rw [Outcome.next_of_none hBefore]
      have hCases := deliver_cases m (m.run messages).state message
      generalize m.deliver (m.run messages).state message = o at hCases ⊢
      cases hCases with
      | fed s hState =>
        have hMem := AList.mem_keys.mp (AList.lookup_isSome.mp (hState ▸ rfl : ((m.run messages).state.lookup message.1).isSome))
        refine Nat.le_trans (Nat.le_of_eq ?_) ih
        simp only [feed, AList.keys_insert, List.length_cons]
        rw [List.length_erase_of_mem hMem]
        exact Nat.sub_add_cancel (List.length_pos_of_mem hMem)
      | opened s hState hRoom =>
        simp only [feed, AList.keys_insert, List.length_cons]
        exact Nat.succ_le_of_lt (Nat.lt_of_le_of_lt List.length_erase_le hRoom)
      | full => exact ih
      | refused => exact ih

end Machines

end Family
