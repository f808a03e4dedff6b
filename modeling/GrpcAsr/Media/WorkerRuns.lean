import Mathlib.Data.List.Induction
import GrpcAsr.Media.WorkerStreams

/-!
# Runs of a worker's streams

In every order of steps the counter counts the streams inside, at most 32 of them are
admitted, and the flag is set exactly while one stream infers. What a stream answers is
what a worker with that one stream answers.
-/

namespace GrpcAsr.Media

set_option autoImplicit false

/-! ## One stream -/

/-- The windows and hypotheses of a stream, as a worker by itself exchanges them. -/
inductive Exchanged (opened : WorkerOpened) :
    List (InferenceWindow × SpeechHypothesis) → SpeechWorker → Prop
  | nil : Exchanged opened [] default
  | snoc {replies : List (InferenceWindow × SpeechHypothesis)} {worker worker' : SpeechWorker}
      {input : InferenceWindow} {h : SpeechHypothesis} (hBefore : Exchanged opened replies worker)
      (serve : Nat → SpeechWindow → Except Failure InferenceReply)
      (hReply : worker.transcribe ⟨opened.accepted.trackId, opened.producer, serve⟩ input =
        .ok (h, worker')) :
    Exchanged opened (replies ++ [(input, h)]) worker'

/-- A stream that was opened and answered like a worker that stands here now. -/
structure Served (config : WorkerConfig) (opened : WorkerOpened) (worker : SpeechWorker)
    (handshake : Option WorkerOpened) (replies : List (InferenceWindow × SpeechHypothesis)) :
    Prop where
  request : ∃ request, config.open request = .ok opened
  handshake : handshake = some opened
  exchanged : Exchanged opened replies worker

/-- A stream answered nothing, or what a worker with this one stream answers. -/
def Answered (config : WorkerConfig) (handshake : Option WorkerOpened)
    (replies : List (InferenceWindow × SpeechHypothesis)) : Prop :=
  handshake = none ∧ replies = [] ∨ ∃ opened worker, Served config opened worker handshake replies

namespace WorkerStream

variable {config : WorkerConfig} {opened : WorkerOpened} {worker : SpeechWorker}
  {input : InferenceWindow} {handshake : Option WorkerOpened}
  {replies : List (InferenceWindow × SpeechHypothesis)}

/-- Where a stream stands fits what it answered. -/
def Serves (config : WorkerConfig) : WorkerStream → Prop
  | ⟨.arriving, handshake, replies⟩ => handshake = none ∧ replies = []
  | ⟨.withdrawing, handshake, replies⟩ => handshake = none ∧ replies = []
  | ⟨.opening, handshake, replies⟩ => handshake = none ∧ replies = []
  | ⟨.reading opened worker, handshake, replies⟩ => Served config opened worker handshake replies
  | ⟨.contending opened worker input, handshake, replies⟩ =>
    Served config opened worker handshake replies ∧ worker.validate input = .ok ()
  | ⟨.inferring opened worker input, handshake, replies⟩ =>
    Served config opened worker handshake replies ∧ worker.validate input = .ok ()
  | ⟨.leaving _, handshake, replies⟩ => Answered config handshake replies
  | ⟨.left _, handshake, replies⟩ => Answered config handshake replies

theorem Serves.answered {party : WorkerStream} (h : party.Serves config) :
    Answered config party.opened party.replies := by
  obtain ⟨phase, handshake, replies⟩ := party
  cases phase with
  | arriving => exact .inl h
  | withdrawing => exact .inl h
  | opening => exact .inl h
  | reading opened worker => exact .inr ⟨opened, worker, h⟩
  | contending opened worker input => exact .inr ⟨opened, worker, h.1⟩
  | inferring opened worker input => exact .inr ⟨opened, worker, h.1⟩
  | leaving status => exact h
  | left status => exact h

/-- A step that a stream takes without the shared state. -/
structure Proceeds (config : WorkerConfig) (party party' : WorkerStream) : Prop where
  counted : party'.phase.counted = true
  admitted : party'.phase.admitted = true
  infers : party'.phase.infers = false
  serves : party.Serves config → party'.Serves config

theorem proceeds_leave {phase : WorkerPhase} (status : Failure) :
    Proceeds config ⟨phase, handshake, replies⟩ ⟨.leaving status, handshake, replies⟩ :=
  ⟨rfl, rfl, rfl, Serves.answered⟩

theorem start_proceeds (message : Option WorkerMessage) (written : Bool) :
    Proceeds config ⟨.opening, handshake, replies⟩
      (start config ⟨.opening, handshake, replies⟩ message written) := by
  unfold start
  split
  next request =>
    cases hOpen : config.open request with
    | error failure => exact proceeds_leave failure
    | ok opened =>
      dsimp only
      split
      · refine ⟨rfl, rfl, rfl, fun hServes => ⟨⟨request, hOpen⟩, rfl, ?_⟩⟩
        obtain ⟨-, rfl⟩ : handshake = none ∧ replies = [] := hServes
        exact .nil
      · exact proceeds_leave _
  · exact proceeds_leave _

theorem receive_proceeds (message : Option WorkerMessage) (written : Bool) :
    Proceeds config ⟨.reading opened worker, handshake, replies⟩
      (receive ⟨.reading opened worker, handshake, replies⟩ opened worker message written) := by
  unfold receive
  split
  · exact proceeds_leave _
  · split
    · exact proceeds_leave _
    · split
      · exact proceeds_leave _
      · exact proceeds_leave _
  next input =>
    cases hValid : worker.validate input with
    | error failure => exact proceeds_leave failure
    | ok => exact ⟨rfl, rfl, rfl, fun hServes => ⟨hServes, hValid⟩⟩
  · exact proceeds_leave _

theorem reply_proceeds (result : Except Exception InferenceReply) (fits written : Bool) :
    Proceeds config ⟨.inferring opened worker input, handshake, replies⟩
      (reply ⟨.inferring opened worker input, handshake, replies⟩ opened worker input result fits
        written) := by
  unfold reply
  split
  · exact proceeds_leave _
  next segments encoderContext =>
    split
    · exact proceeds_leave _
    · split
      · exact proceeds_leave _
      · refine ⟨rfl, rfl, rfl, fun hServes => ?_⟩
        obtain ⟨hServed, hValid⟩ :
          Served config opened worker handshake replies ∧ worker.validate input = .ok () := hServes
        refine ⟨hServed.request, hServed.handshake, .snoc hServed.exchanged
          (fun _ _ => .ok (segments, encoderContext)) ?_⟩
        rw [SpeechWorker.transcribe, hValid]
        rfl

end WorkerStream

/-! ## One step -/

namespace WorkerSystem

variable {config : WorkerConfig} {s s' : WorkerSystem}

/-- What a step can be. -/
inductive Moved (config : WorkerConfig) (s : WorkerSystem) : WorkerSystem → Prop
  | counted (i : Nat) (handshake : Option WorkerOpened)
      (replies : List (InferenceWindow × SpeechHypothesis)) (phase : WorkerPhase)
      (h : s.parties[i]? = some ⟨.arriving, handshake, replies⟩)
      (hPhase : phase = .withdrawing ∧ maxWorkerStreams ≤ s.streams ∨
        phase = .opening ∧ s.streams < maxWorkerStreams) :
    Moved config s { s.move i ⟨phase, handshake, replies⟩ with streams := s.streams + 1 }
  | uncounted (i : Nat) (handshake : Option WorkerOpened)
      (replies : List (InferenceWindow × SpeechHypothesis)) (phase : WorkerPhase) (status : Failure)
      (h : s.parties[i]? = some ⟨phase, handshake, replies⟩)
      (hPhase : phase = .withdrawing ∨ phase = .leaving status) :
    Moved config s { s.move i ⟨.left status, handshake, replies⟩ with streams := s.streams - 1 }
  | proceeded (i : Nat) (party party' : WorkerStream) (h : s.parties[i]? = some party)
      (hAdmitted : party.phase.admitted = true) (hInfers : party.phase.infers = false)
      (hProceeds : party.Proceeds config party') : Moved config s (s.move i party')
  | taken (i : Nat) (opened : WorkerOpened) (worker : SpeechWorker) (input : InferenceWindow)
      (handshake : Option WorkerOpened) (replies : List (InferenceWindow × SpeechHypothesis))
      (h : s.parties[i]? = some ⟨.contending opened worker input, handshake, replies⟩)
      (hFree : s.busy = false) :
    Moved config s
      { s.move i ⟨.inferring opened worker input, handshake, replies⟩ with busy := true }
  | answered (i : Nat) (party party' : WorkerStream) (h : s.parties[i]? = some party)
      (hInfers : party.phase.infers = true) (hProceeds : party.Proceeds config party') :
    Moved config s { s.move i party' with busy := false }

theorem step_cases {action : WorkerAction} (h : s.step config action = some s') :
    Moved config s s' := by
  cases action with
  | arrive i =>
    simp only [step] at h
    split at h
    next handshake replies hParty =>
      obtain rfl := Option.some.inj h
      refine .counted i handshake replies _ hParty ?_
      split
      next hFull => exact .inl ⟨rfl, hFull⟩
      next hRoom => exact .inr ⟨rfl, Nat.lt_of_not_le hRoom⟩
    · cases h
  | withdraw i =>
    simp only [step] at h
    split at h
    next handshake replies hParty =>
      obtain rfl := Option.some.inj h
      exact .uncounted i handshake replies _ _ hParty (.inl rfl)
    · cases h
  | receive i message written =>
    simp only [step] at h
    split at h
    next handshake replies hParty =>
      obtain rfl := Option.some.inj h
      exact .proceeded i _ _ hParty rfl rfl (WorkerStream.start_proceeds message written)
    next opened worker handshake replies hParty =>
      obtain rfl := Option.some.inj h
      exact .proceeded i _ _ hParty rfl rfl (WorkerStream.receive_proceeds message written)
    · cases h
  | take i =>
    simp only [step] at h
    split at h
    next opened worker input handshake replies hParty =>
      split at h
      · obtain rfl := Option.some.inj h
        exact .proceeded i _ _ hParty rfl rfl (WorkerStream.proceeds_leave _)
      next hFree =>
        obtain rfl := Option.some.inj h
        exact .taken i opened worker input handshake replies hParty (Bool.eq_false_iff.mpr hFree)
    · cases h
  | inferred i result fits written =>
    simp only [step] at h
    split at h
    next opened worker input handshake replies hParty =>
      obtain rfl := Option.some.inj h
      exact .answered i _ _ hParty rfl (WorkerStream.reply_proceeds result fits written)
    · cases h
  | leave i =>
    simp only [step] at h
    split at h
    next status handshake replies hParty =>
      obtain rfl := Option.some.inj h
      exact .uncounted i handshake replies _ status hParty (.inr rfl)
    · cases h

/-- What every step keeps holds after every run. -/
theorem run_keeps {P : WorkerSystem → Prop} (hStart : P s)
    (hStep : ∀ s s', P s → Moved config s s' → P s') (actions : List WorkerAction) :
    P (s.run config actions) :=
  Parties.run_induction hStart (fun s _ s' hBefore hTaken => hStep s s' hBefore (step_cases hTaken))
    actions

/-! ## The counter and the slot -/

/-- The counter counts the streams inside, and the flag the one that infers. -/
structure Tallied (s : WorkerSystem) : Prop where
  streams : s.streams = s.parties.countP fun party => party.phase.counted
  admitted : s.parties.countP (fun party => party.phase.admitted) ≤ maxWorkerStreams
  busy : s.parties.countP (fun party => party.phase.infers) = s.busy.toNat

theorem admitted_le_counted (parties : List WorkerStream) :
    parties.countP (fun party => party.phase.admitted) ≤
      parties.countP fun party => party.phase.counted := by
  refine List.countP_mono_left fun party _ hAdmitted => ?_
  obtain ⟨phase, handshake, replies⟩ := party
  cases phase with
  | arriving => cases hAdmitted
  | withdrawing => cases hAdmitted
  | opening => rfl
  | reading => rfl
  | contending => rfl
  | inferring => rfl
  | leaving => rfl
  | left => cases hAdmitted

theorem Tallied.step (hTallied : Tallied s) (hMoved : Moved config s s') : Tallied s' := by
  obtain ⟨hStreams, hAdmitted, hBusy⟩ := hTallied
  have hInside := admitted_le_counted s.parties
  cases hMoved with
  | counted i handshake replies phase h hPhase =>
    have hCounted := Parties.count_set (fun party => party.phase.counted) h ⟨phase, handshake, replies⟩
    have hLet := Parties.count_set (fun party => party.phase.admitted) h ⟨phase, handshake, replies⟩
    have hInfers := Parties.count_set (fun party => party.phase.infers) h ⟨phase, handshake, replies⟩
    rcases hPhase with ⟨rfl, hFull⟩ | ⟨rfl, hRoom⟩
    · refine ⟨?_, ?_, hInfers.trans hBusy⟩
      · exact (congrArg (· + 1) hStreams).trans hCounted.symm
      · exact Nat.le_trans (Nat.le_of_eq hLet) hAdmitted
    · refine ⟨?_, ?_, hInfers.trans hBusy⟩
      · exact (congrArg (· + 1) hStreams).trans hCounted.symm
      · have hBelow := hStreams ▸ hRoom
        exact Nat.le_trans (Nat.le_of_eq hLet) (Nat.lt_of_le_of_lt hInside hBelow)
  | uncounted i handshake replies phase status h hPhase =>
    have hCounted := Parties.count_set (fun party => party.phase.counted) h
      ⟨.left status, handshake, replies⟩
    have hLet := Parties.count_set (fun party => party.phase.admitted) h
      ⟨.left status, handshake, replies⟩
    have hInfers := Parties.count_set (fun party => party.phase.infers) h
      ⟨.left status, handshake, replies⟩
    have hWas : phase.counted = true ∧ phase.infers = false := by
      rcases hPhase with rfl | rfl
      · exact ⟨rfl, rfl⟩
      · exact ⟨rfl, rfl⟩
    simp only [hWas.1, hWas.2] at hCounted hInfers
    refine ⟨?_, ?_, hInfers.trans hBusy⟩
    · exact (congrArg (· - 1) (hStreams.trans hCounted.symm)).trans (Nat.add_sub_cancel ..)
    · exact Nat.le_trans (Nat.le_of_add_right_le (Nat.le_of_eq hLet)) hAdmitted
  | proceeded i party party' h hInside' hInfers hProceeds =>
    have hWas : party.phase.counted = true := by
      obtain ⟨phase, handshake, replies⟩ := party
      cases phase with
      | arriving => cases hInside'
      | withdrawing => cases hInside'
      | opening => rfl
      | reading => rfl
      | contending => rfl
      | inferring => rfl
      | leaving => rfl
      | left => cases hInside'
    have hCounted := Parties.count_set (fun party => party.phase.counted) h party'
    have hLet := Parties.count_set (fun party => party.phase.admitted) h party'
    have hInfer := Parties.count_set (fun party => party.phase.infers) h party'
    simp only [hWas, hInside', hInfers, hProceeds.counted, hProceeds.admitted, hProceeds.infers]
      at hCounted hLet hInfer
    exact ⟨hStreams.trans (Nat.add_right_cancel hCounted).symm,
      Nat.le_trans (Nat.le_of_eq (Nat.add_right_cancel hLet)) hAdmitted, hInfer.trans hBusy⟩
  | taken i opened worker input handshake replies h hFree =>
    have hCounted := Parties.count_set (fun party => party.phase.counted) h
      ⟨.inferring opened worker input, handshake, replies⟩
    have hLet := Parties.count_set (fun party => party.phase.admitted) h
      ⟨.inferring opened worker input, handshake, replies⟩
    have hInfer := Parties.count_set (fun party => party.phase.infers) h
      ⟨.inferring opened worker input, handshake, replies⟩
    rw [hBusy, hFree] at hInfer
    exact ⟨hStreams.trans (Nat.add_right_cancel hCounted).symm,
      Nat.le_trans (Nat.le_of_eq (Nat.add_right_cancel hLet)) hAdmitted, hInfer⟩
  | answered i party party' h hInfers hProceeds =>
    have hWas : party.phase.counted = true ∧ party.phase.admitted = true := by
      obtain ⟨phase, handshake, replies⟩ := party
      cases phase with
      | inferring => exact ⟨rfl, rfl⟩
      | arriving => cases hInfers
      | withdrawing => cases hInfers
      | opening => cases hInfers
      | reading => cases hInfers
      | contending => cases hInfers
      | leaving => cases hInfers
      | left => cases hInfers
    have hCounted := Parties.count_set (fun party => party.phase.counted) h party'
    have hLet := Parties.count_set (fun party => party.phase.admitted) h party'
    have hInfer := Parties.count_set (fun party => party.phase.infers) h party'
    simp only [hWas.1, hWas.2, hInfers, hProceeds.counted, hProceeds.admitted, hProceeds.infers]
      at hCounted hLet hInfer
    refine ⟨hStreams.trans (Nat.add_right_cancel hCounted).symm,
      Nat.le_trans (Nat.le_of_eq (Nat.add_right_cancel hLet)) hAdmitted, ?_⟩
    have hOne : s.parties.countP (fun party => party.phase.infers) ≤ 1 := hBusy ▸ Bool.toNat_le _
    show (s.parties.set i party').countP (fun party => party.phase.infers) = 0
    simp only [Bool.toNat_true, Bool.toNat_false] at hInfer
    omega

theorem start_count (p : WorkerStream → Bool) (hOut : p ⟨.arriving, none, []⟩ = false) (n : Nat) :
    (start n).parties.countP p = 0 := by
  refine List.countP_eq_zero.mpr fun party hMem => ?_
  rw [List.eq_of_mem_replicate hMem, hOut]
  exact Bool.false_ne_true

theorem tallied_run (config : WorkerConfig) (n : Nat) (actions : List WorkerAction) :
    Tallied ((start n).run config actions) := by
  refine run_keeps ⟨?_, ?_, ?_⟩ (fun _ _ => Tallied.step) actions
  · exact (start_count (fun party => party.phase.counted) rfl n).symm
  · exact Nat.le_trans (Nat.le_of_eq (start_count (fun party => party.phase.admitted) rfl n))
      (Nat.zero_le _)
  · exact start_count (fun party => party.phase.infers) rfl n

theorem serves_run (config : WorkerConfig) (n : Nat) (actions : List WorkerAction) :
    ∀ party ∈ ((start n).run config actions).parties, party.Serves config := by
  refine run_keeps (P := fun s => ∀ party ∈ s.parties, party.Serves config) ?_ ?_ actions
  · intro party hMem
    rw [List.eq_of_mem_replicate hMem]
    exact ⟨rfl, rfl⟩
  · intro s s' hServes hMoved
    have hSet {i : Nat} {party party' : WorkerStream} (h : s.parties[i]? = some party)
        (hKeeps : party.Serves config → party'.Serves config) :
        ∀ other ∈ s.parties.set i party', other.Serves config := by
      intro other hMem
      rcases List.mem_or_eq_of_mem_set hMem with hOld | rfl
      · exact hServes other hOld
      · exact hKeeps (hServes party (List.mem_of_getElem? h))
    cases hMoved with
    | counted i handshake replies phase h hPhase =>
      refine hSet h fun hBefore => ?_
      rcases hPhase with ⟨rfl, -⟩ | ⟨rfl, -⟩
      · exact hBefore
      · exact hBefore
    | uncounted i handshake replies phase status h hPhase =>
      exact hSet h WorkerStream.Serves.answered
    | proceeded i party party' h hAdmitted hInfers hProceeds => exact hSet h hProceeds.serves
    | taken i opened worker input handshake replies h hFree => exact hSet h id
    | answered i party party' h hInfers hProceeds => exact hSet h hProceeds.serves

/-- In every order of the streams' steps at most 32 streams are inside and one infers, and
when all streams are over, the counter and the slot are as at the start. -/
theorem worker_admits (config : WorkerConfig) (n : Nat) (actions : List WorkerAction) :
    ((start n).run config actions).parties.countP (fun party => party.phase.admitted) ≤ 32 ∧
      ((start n).run config actions).parties.countP (fun party => party.phase.infers) ≤ 1 ∧
      ((∀ party ∈ ((start n).run config actions).parties,
          party.phase = .arriving ∨ ∃ status, party.phase = .left status) →
        ((start n).run config actions).streams = 0 ∧
          ((start n).run config actions).busy = false) := by
  obtain ⟨hStreams, hAdmitted, hBusy⟩ := tallied_run config n actions
  refine ⟨hAdmitted, hBusy ▸ Bool.toNat_le _, fun hOver => ?_⟩
  have hNone (p : WorkerPhase → Bool) (hArriving : p .arriving = false)
      (hLeft : ∀ status, p (.left status) = false) :
      ((start n).run config actions).parties.countP (fun party => p party.phase) = 0 := by
    refine List.countP_eq_zero.mpr fun party hMem => ?_
    rcases hOver party hMem with hPhase | ⟨status, hPhase⟩
    · rw [hPhase, hArriving]
      exact Bool.false_ne_true
    · rw [hPhase, hLeft]
      exact Bool.false_ne_true
  refine ⟨hStreams.trans (hNone WorkerPhase.counted rfl fun _ => rfl), ?_⟩
  have hFree := hBusy.symm.trans (hNone WorkerPhase.infers rfl fun _ => rfl)
  cases hFlag : ((start n).run config actions).busy with
  | false => rfl
  | true =>
    rw [hFlag] at hFree
    cases hFree

/-- A stream is turned away exactly if 32 streams have not left, and loses an inference exactly
if another stream has the slot. -/
theorem worker_refuses (config : WorkerConfig) (n : Nat) (actions : List WorkerAction) (i : Nat)
    (s' : WorkerSystem) (party : WorkerStream) (hParty : s'.parties[i]? = some party) :
    (((start n).run config actions).step config (.arrive i) = some s' →
      (party.phase = .withdrawing ↔
        32 ≤ ((start n).run config actions).parties.countP fun party => party.phase.counted)) ∧
    (((start n).run config actions).step config (.take i) = some s' →
      (party.phase = .leaving ⟨.resourceExhausted, "speech inference slot is busy"⟩ ↔
        ∃ (j : Nat) (other : WorkerStream), j ≠ i ∧
          ((start n).run config actions).parties[j]? = some other ∧ other.phase.infers = true)) := by
  obtain ⟨hStreams, -, hBusy⟩ := tallied_run config n actions
  generalize (start n).run config actions = s at hStreams hBusy ⊢
  have hNext {before next : WorkerStream} (h : s.parties[i]? = some before)
      (hSet : s'.parties = s.parties.set i next) : party = next := by
    rw [hSet, List.getElem?_set_self (List.getElem?_eq_some_iff.mp h).1] at hParty
    exact (Option.some.inj hParty).symm
  refine ⟨fun hStep => ?_, fun hStep => ?_⟩
  · simp only [step] at hStep
    split at hStep
    next handshake replies h =>
      obtain rfl := Option.some.inj hStep
      rw [hNext h rfl, ← hStreams]
      show (if maxWorkerStreams ≤ s.streams then WorkerPhase.withdrawing else .opening) =
        .withdrawing ↔ 32 ≤ s.streams
      split
      next hFull => exact iff_of_true rfl hFull
      next hRoom => exact iff_of_false WorkerPhase.noConfusion hRoom
    · cases hStep
  · simp only [step] at hStep
    split at hStep
    next opened worker input handshake replies h =>
      split at hStep
      next hTaken =>
        obtain rfl := Option.some.inj hStep
        rw [hNext h rfl]
        rw [hTaken] at hBusy
        obtain ⟨other, hMem, hInfers⟩ := List.countP_pos_iff.mp
          (Nat.lt_of_lt_of_eq Nat.zero_lt_one hBusy.symm)
        obtain ⟨j, hOther⟩ := List.mem_iff_getElem?.mp hMem
        refine iff_of_true rfl ⟨j, other, ?_, hOther, hInfers⟩
        rintro rfl
        rw [h] at hOther
        obtain rfl := Option.some.inj hOther
        cases hInfers
      next hFree =>
        obtain rfl := Option.some.inj hStep
        rw [hNext h rfl]
        rw [Bool.eq_false_iff.mpr hFree] at hBusy
        refine iff_of_false WorkerPhase.noConfusion ?_
        rintro ⟨j, other, -, hOther, hInfers⟩
        exact absurd hBusy (Nat.ne_of_gt (Parties.count_pos _ hOther hInfers))
    · cases hStep

end WorkerSystem

/-- A worker with a small model, and a stream of one window for it. -/
def tinyWorker : WorkerConfig :=
  ⟨.parakeet (ascii "tiny"), default, fun _ => List.replicate 32 0⟩

def tinyOpening : OpenTrack :=
  ⟨ascii "00000000-0000-4000-8000-000000000001", 1,
    { (default : SpeechOptions) with modelId := ascii "tiny" }⟩

def tinyWindow : InferenceWindow := ⟨1, 0, 0, [0, 0, 0, 0], 4⟩

/-- Both streams are at the slot, and the first one has it. -/
def tinyContest : List WorkerAction :=
  [.arrive 0, .arrive 1, .receive 0 (some (.opening tinyOpening)) true,
    .receive 1 (some (.opening tinyOpening)) true, .receive 1 (some (.window tinyWindow)) true,
    .receive 0 (some (.window tinyWindow)) true, .take 0]

theorem WorkerSystem.worker_refuses_tiny :
    ∃ (j : Nat) (other : WorkerStream), j ≠ 1 ∧
      ((start 2).run tinyWorker tinyContest).parties[j]? = some other ∧
        other.phase.infers = true := by
  have hRefuses := worker_refuses tinyWorker 2 tinyContest 1 _ _
    (rfl : (((start 2).run tinyWorker (tinyContest ++ [.take 1])).parties)[1]? = some _)
  exact (hRefuses.2 rfl).mp rfl

/-! ## The answers of one stream -/

namespace SpeechWorker

/-- The windows of a stream, one after the other. -/
def exchange (env : WorkerEnv) (worker : SpeechWorker) :
    List InferenceWindow → Except Failure (List SpeechHypothesis × SpeechWorker)
  | [] => .ok ([], worker)
  | input :: rest => do
    let (h, worker) ← worker.transcribe env input
    let (hs, worker) ← worker.exchange env rest
    return (h :: hs, worker)

variable {env : WorkerEnv} {worker worker' worker'' : SpeechWorker} {inputs : List InferenceWindow}
  {hs : List SpeechHypothesis}

theorem exchange_snoc {input : InferenceWindow} {h : SpeechHypothesis}
    (hBefore : worker.exchange env inputs = .ok (hs, worker'))
    (hLast : worker'.transcribe env input = .ok (h, worker'')) :
    worker.exchange env (inputs ++ [input]) = .ok (hs ++ [h], worker'') := by
  induction inputs generalizing worker hs with
  | nil =>
    obtain ⟨rfl, rfl⟩ := Prod.mk.inj (Except.ok.inj hBefore)
    simp only [List.nil_append, exchange, hLast]
    rfl
  | cons first inputs ih =>
    rw [exchange] at hBefore
    obtain ⟨⟨h₁, worker₁⟩, hFirst, hBefore⟩ := bind_eq_ok hBefore
    obtain ⟨⟨hs₁, worker₂⟩, hRest, hBefore⟩ := bind_eq_ok hBefore
    obtain ⟨rfl, rfl⟩ := Prod.mk.inj (Except.ok.inj hBefore)
    rw [List.cons_append, exchange, hFirst]
    simp only [bind, Except.bind, ih hRest]
    rfl

end SpeechWorker

/-- An inference that gives the answers found in a list. -/
def serveFrom (replies : List (InferenceWindow × SpeechHypothesis)) (n : Nat) (_ : SpeechWindow) :
    Except Failure InferenceReply :=
  match replies[n]? with
  | some (_, h) => .ok (h.segments, h.encoderContext)
  | none => .error ⟨.internal, "speech worker failed"⟩

theorem Exchanged.exchange {opened : WorkerOpened} {worker : SpeechWorker}
    {replies : List (InferenceWindow × SpeechHypothesis)} (h : Exchanged opened replies worker)
    (later : List (InferenceWindow × SpeechHypothesis)) :
    worker.count = replies.length ∧
      SpeechWorker.exchange
        ⟨opened.accepted.trackId, opened.producer, serveFrom (replies ++ later)⟩ default
        (replies.map Prod.fst) = .ok (replies.map Prod.snd, worker) := by
  induction h generalizing later with
  | nil => exact ⟨rfl, rfl⟩
  | @snoc replies worker worker' input h hBefore serve hReply ih =>
    obtain ⟨hCount, hExchange⟩ := ih ((input, h) :: later)
    have hAdvance := SpeechWorker.transcribe_ok hReply
    unfold SpeechWorker.transcribe at hReply
    obtain ⟨⟨⟩, hValid, hReply⟩ := bind_eq_ok hReply
    obtain ⟨⟨segments, encoderContext⟩, hServe, hReply⟩ := bind_eq_ok hReply
    obtain ⟨rfl, rfl⟩ := Prod.mk.inj (Except.ok.inj hReply)
    refine ⟨?_, ?_⟩
    · rw [SpeechWorker.advance, List.length_append, List.length_singleton, hCount]
    · rw [List.append_assoc, List.singleton_append, List.map_append, List.map_append]
      refine SpeechWorker.exchange_snoc hExchange ?_
      rw [SpeechWorker.transcribe, hValid]
      simp only [bind, Except.bind, serveFrom, hCount, List.getElem?_append_right (Nat.le_refl _),
        Nat.sub_self, List.getElem?_cons_zero]
      rfl

/-! ## A stream by itself -/

namespace WorkerAction

/-- The stream that takes an action. -/
def stream : WorkerAction → Nat
  | .arrive i => i
  | .withdraw i => i
  | .receive i _ _ => i
  | .take i => i
  | .inferred i _ _ _ => i
  | .leave i => i

/-- The action at a worker that serves this stream alone. -/
def alone : WorkerAction → WorkerAction
  | .arrive _ => .arrive 0
  | .withdraw _ => .withdraw 0
  | .receive _ message written => .receive 0 message written
  | .take _ => .take 0
  | .inferred _ result fits written => .inferred 0 result fits written
  | .leave _ => .leave 0

theorem alone_stream (action : WorkerAction) : action.alone.stream = 0 := by
  cases action <;> rfl

end WorkerAction

/-- The actions of one stream, at a worker that serves it alone. -/
def ownActions (i : Nat) (actions : List WorkerAction) : List WorkerAction :=
  (actions.filter fun action => action.stream = i).map WorkerAction.alone

theorem ownActions_snoc (i : Nat) (actions : List WorkerAction) (action : WorkerAction) :
    ownActions i (actions ++ [action]) =
      if action.stream = i then ownActions i actions ++ [action.alone] else ownActions i actions := by
  rw [ownActions, List.filter_append, List.map_append]
  by_cases hOwn : action.stream = i
  · rw [if_pos hOwn, List.filter_singleton, decide_eq_true hOwn]
    rfl
  · rw [if_neg hOwn, List.filter_singleton, decide_eq_false hOwn]
    exact List.append_nil _

/-- An action as the stream sees it, which finds the worker full or its slot taken. -/
def WorkerStream.act (config : WorkerConfig) (full busy : Bool) (party : WorkerStream)
    (action : WorkerAction) : Option WorkerStream :=
  match action, party.phase with
  | .arrive _, .arriving =>
    some { party with phase := if full then .withdrawing else .opening }
  | .withdraw _, .withdrawing =>
    some { party with phase := .left ⟨.resourceExhausted, "speech worker stream limit reached"⟩ }
  | .receive _ message written, .opening => some (party.start config message written)
  | .receive _ message written, .reading opened worker =>
    some (party.receive opened worker message written)
  | .take _, .contending opened worker input =>
    some (if busy then party.leave .resourceExhausted "speech inference slot is busy"
      else { party with phase := .inferring opened worker input })
  | .inferred _ result fits written, .inferring opened worker input =>
    some (party.reply opened worker input result fits written)
  | .leave _, .leaving status => some { party with phase := .left status }
  | _, _ => none

namespace WorkerSystem

variable {config : WorkerConfig} {s : WorkerSystem} {party party' : WorkerStream}
  {action : WorkerAction} {i : Nat}

/-- A step changes the stream that takes it, by what the stream sees of the worker. -/
theorem step_act (config : WorkerConfig) (h : s.parties[action.stream]? = some party) :
    (s.step config action).map parties =
      (party.act config (decide (maxWorkerStreams ≤ s.streams)) s.busy action).map
        (s.parties.set action.stream) := by
  obtain ⟨phase, handshake, replies⟩ := party
  cases action with
  | arrive i =>
    rw [WorkerAction.stream] at h
    cases phase <;> simp [step, h, WorkerStream.act, move, WorkerAction.stream]
  | withdraw i =>
    rw [WorkerAction.stream] at h
    cases phase <;> simp [step, h, WorkerStream.act, move, WorkerAction.stream]
  | receive i message written =>
    rw [WorkerAction.stream] at h
    cases phase <;> simp [step, h, WorkerStream.act, move, WorkerAction.stream]
  | take i =>
    rw [WorkerAction.stream] at h
    cases phase with
    | contending opened worker input =>
      cases hBusy : s.busy <;>
        simp [step, h, hBusy, WorkerStream.act, WorkerStream.leave, move, WorkerAction.stream]
    | _ => simp [step, h, WorkerStream.act]
  | inferred i result fits written =>
    rw [WorkerAction.stream] at h
    cases phase <;> simp [step, h, WorkerStream.act, move, WorkerAction.stream]
  | leave i =>
    rw [WorkerAction.stream] at h
    cases phase <;> simp [step, h, WorkerStream.act, move, WorkerAction.stream]

theorem step_missing (h : s.parties[action.stream]? = none) : s.step config action = none := by
  cases action <;> simp only [WorkerAction.stream] at h <;> simp only [step, h]

theorem run_snoc (actions : List WorkerAction) (action : WorkerAction) :
    s.run config (actions ++ [action]) =
      ((s.run config actions).step config action).getD (s.run config actions) := by
  simp only [run, Parties.run, List.foldl_append, List.foldl_cons, List.foldl_nil]

/-- Another stream's action leaves a stream where it stands. -/
theorem step_others (hOther : action.stream ≠ i) :
    ((s.step config action).getD s).parties[i]? = s.parties[i]? := by
  cases hStep : s.step config action with
  | none => rfl
  | some s' =>
    cases hActor : s.parties[action.stream]? with
    | none =>
      rw [step_missing hActor] at hStep
      cases hStep
    | some actor =>
      have hAct := step_act config hActor
      rw [hStep] at hAct
      obtain ⟨actor', -, hSet⟩ := Option.map_eq_some_iff.mp hAct.symm
      rw [Option.getD_some, ← hSet, List.getElem?_set_ne hOther]

/-- A stream's own action. -/
theorem step_own (h : s.parties[action.stream]? = some party) :
    ((s.step config action).getD s).parties =
      s.parties.set action.stream
        ((party.act config (decide (maxWorkerStreams ≤ s.streams)) s.busy action).getD party) := by
  have hAct := step_act config h
  cases hStep : s.step config action with
  | none =>
    rw [hStep] at hAct
    rw [Option.map_eq_none_iff.mp hAct.symm, Option.getD_none, Option.getD_none]
    obtain ⟨hBound, rfl⟩ := List.getElem?_eq_some_iff.mp h
    exact (List.set_getElem_self hBound).symm
  | some s' =>
    rw [hStep] at hAct
    obtain ⟨party', hParty, hSet⟩ := Option.map_eq_some_iff.mp hAct.symm
    rw [hParty, Option.getD_some, Option.getD_some, hSet]

/-- A worker that serves one stream alone has a place and the slot for it. -/
theorem step_lone (hTallied : Tallied s) (h : s.parties = [party]) (action : WorkerAction) :
    ((s.step config action.alone).getD s).parties =
      [(party.act config false false action).getD party] := by
  have hStreams := hTallied.streams
  have hBusy := hTallied.busy
  have hFirst : s.parties[action.alone.stream]? = some party := by
    rw [h, action.alone_stream]
    rfl
  have hPlace : decide (maxWorkerStreams ≤ s.streams) = false := by
    have hOne := List.countP_le_length (p := fun party : WorkerStream => party.phase.counted)
      (l := s.parties)
    rw [← hStreams, h, List.length_singleton] at hOne
    rw [decide_eq_false_iff_not, maxWorkerStreams]
    omega
  have hSlot : s.busy = party.phase.infers := by
    rw [h, List.countP_singleton] at hBusy
    cases hFlag : s.busy <;> cases hInfers : party.phase.infers <;> simp_all
  rw [step_own hFirst, h, action.alone_stream, hPlace, hSlot]
  obtain ⟨phase, handshake, replies⟩ := party
  cases action <;> cases phase <;> rfl

/-- An action by which a worker with other streams turns this one away, where the stream stands
at the worker by itself, and where it stands after the refusal. -/
inductive Refusal : WorkerAction → WorkerPhase → WorkerPhase → Prop
  | place : Refusal (.arrive 0) .arriving .withdrawing
  | turnedAway :
    Refusal (.arrive 0) .arriving (.left ⟨.resourceExhausted, "speech worker stream limit reached"⟩)
  | slot (opened : WorkerOpened) (worker : SpeechWorker) (input : InferenceWindow) :
    Refusal (.take 0) (.contending opened worker input)
      (.leaving ⟨.resourceExhausted, "speech inference slot is busy"⟩)
  | sentAway (opened : WorkerOpened) (worker : SpeechWorker) (input : InferenceWindow) :
    Refusal (.take 0) (.contending opened worker input)
      (.left ⟨.resourceExhausted, "speech inference slot is busy"⟩)

/-- A stream stands where its own actions bring it at a worker that serves it alone, or was
refused and has answered what that worker had answered it until then. -/
inductive Alone (config : WorkerConfig) (own : List WorkerAction) (party : WorkerStream) : Prop
  | same (h : ((start 1).run config own).parties = [party])
  | refused (before after : List WorkerAction) (action : WorkerAction) (phase : WorkerPhase)
      (hSplit : own = before ++ action :: after)
      (hBefore : ((start 1).run config before).parties = [⟨phase, party.opened, party.replies⟩])
      (hRefused : Refusal action phase party.phase)

/-- What a stream sees of a full worker or a taken slot is a refusal or nothing. -/
theorem act_alone (config : WorkerConfig) (full busy : Bool) (party : WorkerStream)
    (action : WorkerAction) :
    (party.act config full busy action).getD party =
        (party.act config false false action).getD party ∨
      ∃ phase, Refusal action.alone party.phase phase ∧
        (party.act config full busy action).getD party = { party with phase := phase } := by
  obtain ⟨phase, handshake, replies⟩ := party
  cases action with
  | arrive i =>
    cases phase with
    | arriving =>
      cases full with
      | false => exact .inl rfl
      | true => exact .inr ⟨_, .place, rfl⟩
    | _ => exact .inl rfl
  | take i =>
    cases phase with
    | contending opened worker input =>
      cases busy with
      | false => exact .inl rfl
      | true => exact .inr ⟨_, .slot opened worker input, rfl⟩
    | _ => exact .inl rfl
  | _ => cases phase <;> exact .inl rfl

/-- A refused stream only leaves. -/
theorem act_refused (config : WorkerConfig) (full busy : Bool) {refusing : WorkerAction}
    {phase : WorkerPhase} (h : Refusal refusing phase party.phase) (action : WorkerAction) :
    ∃ next, Refusal refusing phase next ∧
      (party.act config full busy action).getD party = { party with phase := next } := by
  obtain ⟨now, handshake, replies⟩ := party
  cases h with
  | place =>
    cases action with
    | withdraw i => exact ⟨_, .turnedAway, rfl⟩
    | _ => exact ⟨_, .place, rfl⟩
  | turnedAway => cases action <;> exact ⟨_, .turnedAway, rfl⟩
  | slot opened worker input =>
    cases action with
    | leave i => exact ⟨_, .sentAway opened worker input, rfl⟩
    | _ => exact ⟨_, .slot opened worker input, rfl⟩
  | sentAway opened worker input => cases action <;> exact ⟨_, .sentAway opened worker input, rfl⟩

theorem Alone.act {own : List WorkerAction} (h : Alone config own party) (full busy : Bool)
    (action : WorkerAction) :
    Alone config (own ++ [action.alone]) ((party.act config full busy action).getD party) := by
  cases h with
  | same hSame =>
    rcases act_alone config full busy party action with hLike | ⟨phase, hRefused, hPhase⟩
    · refine .same ?_
      rw [run_snoc, step_lone (tallied_run config 1 own) hSame, hLike]
    · rw [hPhase]
      exact .refused own [] action.alone party.phase rfl hSame hRefused
  | refused before after refusing phase hSplit hBefore hRefused =>
    obtain ⟨next, hNext, hPhase⟩ := act_refused config full busy hRefused action
    rw [hPhase]
    refine .refused before (after ++ [action.alone]) refusing phase ?_ hBefore hNext
    rw [hSplit, List.append_assoc, List.cons_append]

theorem alone_run (config : WorkerConfig) (n : Nat) (actions : List WorkerAction) (i : Nat)
    (party : WorkerStream) (hParty : ((start n).run config actions).parties[i]? = some party) :
    Alone config (ownActions i actions) party := by
  induction actions using List.reverseRecOn generalizing party with
  | nil =>
    have hStart := List.eq_of_mem_replicate (List.mem_of_getElem? hParty)
    rw [hStart]
    exact .same rfl
  | append_singleton actions action ih =>
    rw [run_snoc] at hParty
    rw [ownActions_snoc]
    by_cases hOwn : action.stream = i
    · subst hOwn
      rw [if_pos rfl]
      cases hBefore : ((start n).run config actions).parties[action.stream]? with
      | none =>
        rw [step_missing hBefore, Option.getD_none, hBefore] at hParty
        cases hParty
      | some before =>
        rw [step_own hBefore,
          List.getElem?_set_self (List.getElem?_eq_some_iff.mp hBefore).1] at hParty
        obtain rfl := Option.some.inj hParty
        exact (ih before hBefore).act _ _ action
    · rw [if_neg hOwn]
      rw [step_others hOwn] at hParty
      exact ih party hParty

end WorkerSystem

/-- However the streams of a worker are interleaved, each of them stands where its own messages,
inferences and writes bring it at a worker that serves it alone, unless it was refused a place or
the slot; then it ended with the refusal. Its answers are the handshake and one hypothesis for
each accepted window, in their numbering. -/
theorem worker_streams_alone (config : WorkerConfig) (n : Nat) (actions : List WorkerAction)
    (i : Nat) (party : WorkerStream)
    (hParty : ((WorkerSystem.start n).run config actions).parties[i]? = some party) :
    WorkerSystem.Alone config (ownActions i actions) party ∧
      (party.opened = none ∧ party.replies = [] ∨
        ∃ (request : OpenTrack) (opened : WorkerOpened)
          (serve : Nat → SpeechWindow → Except Failure InferenceReply) (worker : SpeechWorker),
          config.open request = .ok opened ∧ party.opened = some opened ∧
          SpeechWorker.exchange ⟨opened.accepted.trackId, opened.producer, serve⟩ default
            (party.replies.map Prod.fst) = .ok (party.replies.map Prod.snd, worker)) := by
  refine ⟨WorkerSystem.alone_run config n actions i party hParty, ?_⟩
  rcases (WorkerSystem.serves_run config n actions party (List.mem_of_getElem? hParty)).answered with
    hNothing | hServed
  · exact .inl hNothing
  · obtain ⟨opened, worker, ⟨request, hOpen⟩, hHandshake, hExchanged⟩ := hServed
    have hExchange := (hExchanged.exchange []).2
    exact .inr ⟨request, opened, _, worker, hOpen, hHandshake, hExchange⟩

theorem worker_streams_alone_tiny :
    ∃ (party : WorkerStream) (opened : WorkerOpened)
      (serve : Nat → SpeechWindow → Except Failure InferenceReply) (worker : SpeechWorker)
      (h : SpeechHypothesis),
      WorkerSystem.Alone tinyWorker
        [.arrive 0, .receive 0 (some (.opening tinyOpening)) true,
          .receive 0 (some (.window tinyWindow)) true, .take 0,
          .inferred 0 (.ok ([], none)) true true] party ∧
      SpeechWorker.exchange ⟨opened.accepted.trackId, opened.producer, serve⟩ default [tinyWindow] =
        .ok ([h], worker) := by
  have hAlone := worker_streams_alone tinyWorker 2
    (tinyContest ++ [.inferred 0 (.ok ([], none)) true true]) 0 _ rfl
  rcases hAlone with ⟨hOwn, ⟨-, hNone⟩ | ⟨-, opened, serve, worker, -, -, hExchange⟩⟩
  · cases hNone
  · exact ⟨_, opened, serve, worker, _, hOwn, hExchange⟩

end GrpcAsr.Media
