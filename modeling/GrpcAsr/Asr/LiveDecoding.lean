import GrpcAsr.Asr.AudioDecoder

/-!
# Decoding while the upload is in flight

The decoder reads a byte stream that is still growing. Here its runs are compared with those on
the complete file: reads are the same whenever they are served, and only the questions whether
the upload is complete can tell the two apart.
-/

namespace GrpcAsr.Asr

set_option autoImplicit false

open Interaction
open Media (Bytes)

/-- The answers of a complete file. The questions whether it is complete are answered with no as
often as `left` says, or always. -/
def serveFile (file : Bytes) (left : Option Nat) : (request : StreamRequest) →
    request.Answer × Option Nat
  | .waitForPrefix size => (min file.length size, left)
  | .isAborted => (false, left)
  | .readAt offset size => ((file.drop offset).take size, left)
  | .isComplete =>
    match left with
    | none => (false, none)
    | some 0 => (true, some 0)
    | some (n + 1) => (false, some n)
  | .size => (file.length, left)

/-- How many bytes must have come before a request is sure to be served. -/
def StreamRequest.needs : StreamRequest → Nat
  | .waitForPrefix wanted => wanted
  | .readAt offset wanted => offset + max wanted 1
  | .isAborted | .isComplete | .size => 0

theorem needs_readAt {offset wanted : Nat} (h : 0 < wanted) :
    (StreamRequest.readAt offset wanted).needs = offset + wanted := by
  rw [StreamRequest.needs, Nat.max_eq_left h]

variable {α β : Type}

/-- The bytes that a run on a file needs. -/
def reach (file : Bytes) : Consumer α → Option Nat → Nat
  | .done _, _ => 0
  | .perform request next, left =>
    max request.needs
      (reach file (next (serveFile file left request).1) (serveFile file left request).2)

/-- What a thread knows of the upload: that it is complete, and how many bytes have come. -/
structure Knowledge where
  told : Bool
  there : Nat

def Within (limit : Option Nat) (bytes : Nat) : Prop := ∀ bound ∈ limit, bytes ≤ bound

/-- What a thread can expect of an upload of `file`. With a limit, the thread asks for no bytes
past it and the upload never completes. -/
def Expects (file : Bytes) (limit : Option Nat) (k : Knowledge) :
    (request : StreamRequest) → (request.Answer → Knowledge → Prop) → Prop
  | .waitForPrefix size, Q =>
    Q (min file.length size) { k with there := max k.there (min file.length size) }
  | .isAborted, Q => Q false k
  | .readAt offset size, Q => ∀ count, count ≤ size → min size (k.there - offset) ≤ count →
    (count = 0 → size = 0 ∨ file.length ≤ offset) → Q ((file.drop offset).take count) k
  | .isComplete, Q => (k.told = false → Q false k) ∧ (limit = none → Q true { k with told := true })
  | .size, Q => k.told = true ∧ Q file.length k

def uploading (file : Bytes) (limit : Option Nat) :
    Contract StreamRequest StreamRequest.Answer Knowledge where
  holds request k Q := Within limit request.needs ∧ Expects file limit k request Q
  mono {request k P Q} hImp h := by
    refine ⟨h.1, ?_⟩
    have hExpects := h.2
    cases request with
    | waitForPrefix size => exact hImp _ _ hExpects
    | isAborted => exact hImp _ _ hExpects
    | readAt offset size =>
      intro count hCount hThere hZero
      exact hImp _ _ (hExpects count hCount hThere hZero)
    | isComplete =>
      exact ⟨fun hTold => hImp _ _ (hExpects.1 hTold), fun hNone => hImp _ _ (hExpects.2 hNone)⟩
    | size => exact ⟨hExpects.1, hImp _ _ hExpects.2⟩

namespace Upload

variable {file : Bytes} {limit : Option Nat} {u : Upload}

/-- An upload of a file, which is completed unless there is a limit. -/
structure Carries (file : Bytes) (limit : Option Nat) (u : Upload) : Prop where
  whole : u.stream.bytes ++ u.coming.flatten = file
  alive : u.stream.aborted = false
  ending : u.ending = if limit = none then .halfClose else .silent
  complete : u.stream.complete = true → u.coming = [] ∧ limit = none

theorem Carries.start (chunks : List Bytes) (limit : Option Nat) :
    Carries chunks.flatten limit (start chunks (if limit = none then .halfClose else .silent)) where
  whole := rfl
  alive := rfl
  ending := rfl
  complete h := absurd h Bool.false_ne_true

theorem Carries.advance (h : Carries file limit u) : Carries file limit (u.advance ()) := by
  obtain ⟨stream, coming, ending⟩ := u
  obtain ⟨hWhole, hAlive, hEnding, hComplete⟩ := h
  cases coming with
  | cons chunk coming =>
    constructor
    · simpa [Upload.advance, ByteStream.append] using hWhole
    · exact hAlive
    · exact hEnding
    · intro hDone
      exact absurd (hComplete hDone).1 (List.cons_ne_nil _ _)
  | nil =>
    dsimp only at hEnding
    by_cases hLimit : limit = none
    · rw [if_pos hLimit] at hEnding
      subst hEnding
      exact ⟨hWhole, hAlive, (if_pos hLimit).symm, fun _ => ⟨rfl, hLimit⟩⟩
    · rw [if_neg hLimit] at hEnding
      subst hEnding
      exact ⟨hWhole, hAlive, (if_neg hLimit).symm, hComplete⟩

theorem advance_keeps_bytes (u : Upload) :
    u.stream.bytes.length ≤ (u.advance ()).stream.bytes.length ∧
      (u.stream.complete = true → (u.advance ()).stream.complete = true) := by
  unfold Upload.advance
  split
  · constructor
    · simp [ByteStream.append]
    · exact id
  · exact ⟨Nat.le_refl _, fun _ => rfl⟩
  · exact ⟨Nat.le_refl _, id⟩
  · exact ⟨Nat.le_refl _, id⟩

/-- What the threads know of the upload is so. -/
def Known (file : Bytes) (limit : Option Nat) (u : Upload) (knowledge : Nat → Knowledge) : Prop :=
  u.Carries file limit ∧ ∀ index, ((knowledge index).told = true → u.stream.complete = true) ∧
    (knowledge index).there ≤ u.stream.bytes.length

theorem Known.update {knowledge : Nat → Knowledge} (h : u.Known file limit knowledge) (index : Nat)
    {k : Knowledge} (hTold : k.told = true → u.stream.complete = true)
    (hThere : k.there ≤ u.stream.bytes.length) :
    u.Known file limit (Function.update knowledge index k) := by
  refine ⟨h.1, fun other => ?_⟩
  by_cases hSame : other = index
  · subst hSame
    rw [Function.update_self]
    exact ⟨hTold, hThere⟩
  · rw [Function.update_of_ne hSame]
    exact h.2 other

theorem Known.refl {knowledge : Nat → Knowledge} (h : u.Known file limit knowledge) (index : Nat) :
    u.Known file limit (Function.update knowledge index (knowledge index)) :=
  h.update index (h.2 index).1 (h.2 index).2

theorem Carries.length_le (h : Carries file limit u) : u.stream.bytes.length ≤ file.length := by
  rw [← h.whole, List.length_append]
  exact Nat.le_add_right _ _

theorem Carries.bytes_complete (h : Carries file limit u) (hComplete : u.stream.complete = true) :
    u.stream.bytes = file := by
  rw [← h.whole, (h.complete hComplete).1, List.flatten_nil, List.append_nil]

/-- The bytes of a read are those of the file, as many as have come. -/
theorem Carries.read (h : Carries file limit u) {offset size : Nat} {data : Bytes}
    (hRead : u.stream.readAt offset size = some data) :
    ∃ count ≤ size, data = (file.drop offset).take count ∧
      min size (u.stream.bytes.length - offset) ≤ count ∧
      (count = 0 → size = 0 ∨ file.length ≤ offset) := by
  have hData : data = (u.stream.bytes.drop offset).take size ∧
      (u.stream.complete = true ∨ offset < u.stream.bytes.length) := by
    rw [ByteStream.readAt] at hRead
    simp only [h.alive, Bool.false_or, Bool.or_eq_true, decide_eq_true_eq] at hRead
    split at hRead
    · rename_i hServed
      obtain rfl := Option.some.inj hRead
      refine ⟨?_, hServed⟩
      split
      · rename_i hPast
        rw [List.drop_of_length_le hPast, List.take_nil]
      · rfl
    · cases hRead
  obtain ⟨rfl, hServed⟩ := hData
  refine ⟨min size (u.stream.bytes.length - offset), Nat.min_le_left _ _, ?_, Nat.le_refl _, ?_⟩
  · have hDrop : (file.drop offset).take (min size (u.stream.bytes.length - offset)) =
        ((file.drop offset).take (u.stream.bytes.length - offset)).take size := by
      rw [List.take_take]
    rw [hDrop, ← List.drop_take, ← h.whole, List.take_left]
  · intro hZero
    rcases hServed with hComplete | hThere
    · have hBytes := h.bytes_complete hComplete
      rw [hBytes] at hZero
      omega
    · omega

/-- What the machine answers is what a thread can expect. -/
theorem sound (file : Bytes) (limit : Option Nat) :
    Pool.Sound uploadMachine Upload.advance (uploading file limit) (Known file limit) where
  serve {u u' knowledge index request reply Q} moment hKnown hHolds hServed := by
    obtain ⟨answer, hAnswer, hPair⟩ := Option.map_eq_some_iff.mp hServed
    obtain ⟨rfl, rfl⟩ := Prod.mk.inj hPair
    obtain ⟨hCarries, hThreads⟩ := hKnown
    have hExpects := hHolds.2
    cases request with
    | waitForPrefix size =>
      have hSize : answer = min file.length size ∧ answer ≤ u.stream.bytes.length := by
        simp only [Upload.answer, ByteStream.waitForPrefix, hCarries.alive, Bool.false_or,
          Bool.or_eq_true, decide_eq_true_eq] at hAnswer
        split at hAnswer
        · rename_i hReady
          obtain rfl := Option.some.inj hAnswer
          refine ⟨?_, Nat.min_le_left _ _⟩
          have hLe := hCarries.length_le
          rcases hReady with hComplete | hEnough
          · rw [hCarries.bytes_complete hComplete]
          · rw [Nat.min_eq_right hEnough, Nat.min_eq_right (hEnough.trans hLe)]
        · cases hAnswer
      obtain ⟨rfl, hThere⟩ := hSize
      exact ⟨_, hExpects, Known.update ⟨hCarries, hThreads⟩ index (hThreads index).1
        (Nat.max_le.mpr ⟨(hThreads index).2, hThere⟩)⟩
    | isAborted =>
      obtain rfl : u.stream.aborted = answer := Option.some.inj hAnswer
      refine ⟨_, ?_, Known.refl ⟨hCarries, hThreads⟩ index⟩
      rw [hCarries.alive]
      exact hExpects
    | readAt offset size =>
      obtain ⟨count, hCount, rfl, hThere, hZero⟩ := hCarries.read hAnswer
      have hKnows := (hThreads index).2
      exact ⟨_, hExpects count hCount (by omega) hZero, Known.refl ⟨hCarries, hThreads⟩ index⟩
    | isComplete =>
      obtain rfl : u.stream.complete = answer := Option.some.inj hAnswer
      cases hComplete : u.stream.complete with
      | false =>
        refine ⟨_, hExpects.1 ?_, Known.refl ⟨hCarries, hThreads⟩ index⟩
        cases hTold : (knowledge index).told with
        | false => rfl
        | true => exact absurd ((hThreads index).1 hTold) (hComplete ▸ Bool.false_ne_true)
      | true =>
        exact ⟨_, hExpects.2 (hCarries.complete hComplete).2,
          Known.update ⟨hCarries, hThreads⟩ index (fun _ => hComplete) (hThreads index).2⟩
    | size =>
      obtain rfl : u.stream.bytes.length = answer := Option.some.inj hAnswer
      refine ⟨_, ?_, Known.refl ⟨hCarries, hThreads⟩ index⟩
      rw [hCarries.bytes_complete ((hThreads index).1 hExpects.1)]
      exact hExpects.2
  move {u knowledge} _ hKnown := by
    obtain ⟨hCarries, hThreads⟩ := hKnown
    obtain ⟨hBytes, hComplete⟩ := u.advance_keeps_bytes
    exact ⟨hCarries.advance, fun index => ⟨fun hTold => hComplete ((hThreads index).1 hTold),
      (hThreads index).2.trans hBytes⟩⟩

end Upload

/-! ## Steady programs -/

section Steady

variable {file : Bytes} {limit : Option Nat} {k : Knowledge}

theorem Within.max {a b : Nat} : Within limit (max a b) ↔ Within limit a ∧ Within limit b := by
  constructor
  · intro h
    exact ⟨fun bound hBound => (Nat.le_max_left _ _).trans (h bound hBound),
      fun bound hBound => (Nat.le_max_right _ _).trans (h bound hBound)⟩
  · rintro ⟨ha, hb⟩ bound hBound
    exact Nat.max_le.mpr ⟨ha bound hBound, hb bound hBound⟩

theorem Within.mono {a b : Nat} (h : Within limit b) (hLe : a ≤ b) : Within limit a :=
  fun bound hBound => hLe.trans (h bound hBound)

theorem reach_bind (p : Consumer α) (f : α → Consumer β) (left : Option Nat) :
    reach file (p.bind f) left = max (reach file p left)
      (reach file (f (p.play (serveFile file) left).1) (p.play (serveFile file) left).2) := by
  induction p generalizing left with
  | done a => exact (Nat.zero_max _).symm
  | perform request next ih =>
    rw [Program.bind, reach, reach, ih, Nat.max_assoc]
    rfl

/-- The runs on the file that agree with what a thread knows. -/
structure Knowledge.Fits (limit : Option Nat) (k : Knowledge) (left : Option Nat) : Prop where
  told : k.told = true → left = some 0
  early : limit ≠ none → left = none

/-- What holds of the results of the runs on the file holds of the result of a thread that reads
the upload in flight. -/
def SteadyAt (file : Bytes) (limit : Option Nat) (k : Knowledge) (p : Consumer α) : Prop :=
  ∀ B : α → Option Nat → Prop, (∃ left, k.Fits limit left) →
    (∀ left, k.Fits limit left → Within limit (reach file p left) ∧
      B (p.play (serveFile file) left).1 (p.play (serveFile file) left).2) →
    p.Meets (uploading file limit) k fun a k' =>
      (∃ left, k'.Fits limit left) ∧ ∀ left, k'.Fits limit left → B a left

def Steady (file : Bytes) (limit : Option Nat) (p : Consumer α) : Prop :=
  ∀ k, SteadyAt file limit k p

theorem SteadyAt.done (a : α) : SteadyAt file limit k (.done a : Consumer α) :=
  fun _ hSome h => ⟨hSome, fun left hFits => (h left hFits).2⟩

theorem SteadyAt.bind {p : Consumer α} {f : α → Consumer β} (hp : SteadyAt file limit k p)
    (hf : ∀ a, Steady file limit (f a)) : SteadyAt file limit k (p.bind f) := by
  intro B hSome h
  apply Program.Meets.bind
  have hFirst := hp
    (fun a left => Within limit (reach file (f a) left) ∧
      B ((f a).play (serveFile file) left).1 ((f a).play (serveFile file) left).2) hSome (by
    intro left hFits
    have hBoth := h left hFits
    rw [reach_bind, Within.max, Program.play_bind] at hBoth
    exact ⟨hBoth.1.1, hBoth.1.2, hBoth.2⟩)
  exact hFirst.imp fun a k' hNext => hf a k' B hNext.1 hNext.2

theorem Steady.done (a : α) : Steady file limit (.done a : Consumer α) := fun _ => SteadyAt.done a

theorem Steady.bind {p : Consumer α} {f : α → Consumer β} (hp : Steady file limit p)
    (hf : ∀ a, Steady file limit (f a)) : Steady file limit (p.bind f) := fun k => (hp k).bind hf

theorem Steady.handle {ι σ : Type} {ρ : ι → Type}
    {handler : (request : ι) → σ → Consumer (ρ request × σ)}
    (hHandler : ∀ request s, Steady file limit (handler request s)) (p : Program ι ρ α) (s : σ) :
    Steady file limit (p.handle handler s) := by
  induction p generalizing s with
  | done a => exact Steady.done _
  | perform request next ih => exact (hHandler request s).bind fun served => ih _ _

theorem SteadyAt.isComplete {next : Bool → Consumer α} (hNo : SteadyAt file limit k (next false))
    (hYes : SteadyAt file limit { k with told := true } (next true)) :
    SteadyAt file limit k (.perform .isComplete next) := by
  intro B hSome h
  refine ⟨fun _ _ => Nat.zero_le _, ?_, ?_⟩
  · intro hTold
    apply hNo B hSome
    intro left hFits
    have hLater := h (left.map (· + 1))
      ⟨fun hYet => absurd hYet (hTold ▸ Bool.false_ne_true), fun hLimit => by
        rw [hFits.early hLimit]
        rfl⟩
    rw [reach, Within.max] at hLater
    cases left with
    | none => exact ⟨hLater.1.2, hLater.2⟩
    | some n => exact ⟨hLater.1.2, hLater.2⟩
  · intro hLimit
    have hNow : k.Fits limit (some 0) := ⟨fun _ => rfl, fun hSome => absurd hLimit hSome⟩
    apply hYes B ⟨some 0, fun _ => rfl, fun hSome => absurd hLimit hSome⟩
    intro left hFits
    obtain rfl := hFits.told rfl
    have hLater := h _ hNow
    rw [reach, Within.max] at hLater
    exact ⟨hLater.1.2, hLater.2⟩

/-- A request whose answer is the file's, whenever it is served. -/
theorem SteadyAt.perform {request : StreamRequest} {answer : request.Answer} {later : Knowledge}
    {next : request.Answer → Consumer α} (hTold : later.told = k.told)
    (hServe : ∀ left, serveFile file left request = (answer, left))
    (hExpects : ∀ {Q : request.Answer → Knowledge → Prop}, Q answer later →
      Expects file limit k request Q)
    (hNext : SteadyAt file limit later (next answer)) :
    SteadyAt file limit k (.perform request next) := by
  have hFits (left : Option Nat) : later.Fits limit left ↔ k.Fits limit left := by
    constructor
    · rintro ⟨hTrue, hEarly⟩
      exact ⟨hTold ▸ hTrue, hEarly⟩
    · rintro ⟨hTrue, hEarly⟩
      exact ⟨hTold.symm ▸ hTrue, hEarly⟩
  intro B hSome h
  obtain ⟨left₀, hFits₀⟩ := hSome
  have hFirst := (h left₀ hFits₀).1
  rw [reach, Within.max] at hFirst
  refine ⟨hFirst.1, hExpects ?_⟩
  apply hNext B ⟨left₀, (hFits left₀).mpr hFits₀⟩
  intro left hLeft
  have hLater := h left ((hFits left).mp hLeft)
  rw [reach, Within.max, Program.play, hServe] at hLater
  exact ⟨hLater.1.2, hLater.2⟩

theorem SteadyAt.size {next : Nat → Consumer α} (hTold : k.told = true)
    (hNext : SteadyAt file limit k (next file.length)) :
    SteadyAt file limit k (.perform .size next) :=
  SteadyAt.perform rfl (fun _ => rfl) (fun h => ⟨hTold, h⟩) hNext

theorem SteadyAt.isAborted {next : Bool → Consumer α} (hNext : SteadyAt file limit k (next false)) :
    SteadyAt file limit k (.perform .isAborted next) :=
  SteadyAt.perform rfl (fun _ => rfl) (fun h => h) hNext

theorem SteadyAt.waitForPrefix {size : Nat} {next : Nat → Consumer α}
    (hNext : SteadyAt file limit { k with there := max k.there (min file.length size) }
      (next (min file.length size))) :
    SteadyAt file limit k (.perform (.waitForPrefix size) next) := by
  refine SteadyAt.perform ?_ (fun _ => rfl) ?_ hNext
  · rfl
  · exact fun h => h

/-- A read of bytes that are known to have come is served in full. -/
theorem SteadyAt.readAt {offset size : Nat} {next : Bytes → Consumer α}
    (hThere : offset + size ≤ k.there)
    (hNext : SteadyAt file limit k (next ((file.drop offset).take size))) :
    SteadyAt file limit k (.perform (.readAt offset size) next) := by
  apply SteadyAt.perform rfl (fun _ => rfl) _ hNext
  intro Q h count hCount hEnough _
  obtain rfl : count = size := by omega
  exact h

end Steady

/-! ## The loop of a read -/

section Reads

variable {file : Bytes} {limit : Option Nat}

/-- The bytes of the file from a position on. -/
def bytesAt (file : Bytes) (position : UInt64) (size : Nat) : Bytes :=
  (file.drop position.toNat).take size

theorem length_bytesAt (file : Bytes) (position : UInt64) (size : Nat) :
    (bytesAt file position size).length = min size (file.length - position.toNat) := by
  rw [bytesAt, List.length_take, List.length_drop]

theorem bytesAt_zero (position : UInt64) : bytesAt file position 0 = [] := List.take_zero

theorem position_add (hSize : file.length < 2 ^ 64) {position : UInt64} {count : Nat}
    (hSome : bytesAt file position count ≠ []) :
    (position + UInt64.ofNat (bytesAt file position count).length).toNat =
      position.toNat + (bytesAt file position count).length := by
  have hLength := List.length_pos_iff.mpr hSome
  rw [length_bytesAt] at hLength ⊢
  rw [UInt64.toNat_add, UInt64.toNat_ofNat']
  omega

/-- What is read in two turns is what would have been read in one. -/
theorem bytesAt_split (hSize : file.length < 2 ^ 64) {position : UInt64} {count size : Nat}
    (hCount : count ≤ size) (hSome : bytesAt file position count ≠ []) :
    bytesAt file position size = bytesAt file position count ++
      bytesAt file (position + UInt64.ofNat (bytesAt file position count).length)
        (size - (bytesAt file position count).length) := by
  have hLength := length_bytesAt file position count
  have hShort : bytesAt file position count =
      (file.drop position.toNat).take (bytesAt file position count).length := by
    rw [hLength, bytesAt, ← List.length_drop, ← List.take_eq_take_min]
  have hAll : size = (bytesAt file position count).length +
      (size - (bytesAt file position count).length) := by omega
  calc
    bytesAt file position size =
        (file.drop position.toNat).take ((bytesAt file position count).length +
          (size - (bytesAt file position count).length)) := by
      rw [← hAll]
      rfl
    _ = bytesAt file position count ++ ((file.drop position.toNat).drop
          (bytesAt file position count).length).take
            (size - (bytesAt file position count).length) := by
      rw [List.take_add, ← hShort]
    _ = _ := by
      rw [List.drop_drop, ← position_add hSize hSome]
      rfl

theorem readLoop_play (hSize : file.length < 2 ^ 64) {rounds wanted : Nat} {data : Bytes}
    (hRounds : wanted ≤ data.length + rounds) (position : UInt64) (left : Option Nat) :
    (readLoop rounds position wanted data).play (serveFile file) left =
      ((data ++ bytesAt file position (wanted - data.length),
        position + UInt64.ofNat (bytesAt file position (wanted - data.length)).length), left) := by
  induction rounds generalizing position data with
  | zero =>
    have hFull : wanted ≤ data.length := hRounds
    rw [Nat.sub_eq_zero_of_le hFull, bytesAt_zero, List.append_nil]
    simp [readLoop, Program.play]
  | succ rounds ih =>
    rw [readLoop]
    split
    · rename_i hShort
      have hServe : serveFile file left (.readAt position.toNat (wanted - data.length)) =
          (bytesAt file position (wanted - data.length), left) :=
        rfl
      rw [Program.play, hServe]
      dsimp only
      generalize hGot : bytesAt file position (wanted - data.length) = got
      split
      · rename_i hEmpty
        rw [List.isEmpty_iff.mp hEmpty]
        simp [Program.play]
      · rename_i hSome
        have hNonempty : got ≠ [] := fun h => hSome (h ▸ rfl)
        have hLength := length_bytesAt file position (wanted - data.length)
        have hPosition := position_add hSize (hGot ▸ hNonempty)
        have hPos := List.length_pos_iff.mpr hNonempty
        rw [hGot] at hLength hPosition
        have hRest : bytesAt file (position + UInt64.ofNat got.length)
            (wanted - (data ++ got).length) = [] := by
          apply List.length_eq_zero_iff.mp
          rw [length_bytesAt, hPosition, List.length_append]
          omega
        rw [ih (by rw [List.length_append]; omega), hRest]
        simp
    · rename_i hLong
      rw [Nat.sub_eq_zero_of_le (Nat.not_lt.mp hLong), bytesAt_zero, List.append_nil]
      simp [Program.play]

theorem reach_readLoop (hSize : file.length < 2 ^ 64) (rounds wanted : Nat) (data : Bytes)
    (position : UInt64) (left : Option Nat) :
    reach file (readLoop rounds position wanted data) left ≤
      if data.length < wanted then position.toNat + (wanted - data.length) else 0 := by
  induction rounds generalizing position data left with
  | zero => exact Nat.zero_le _
  | succ rounds ih =>
    rw [readLoop]
    split
    · rename_i hShort
      have hServe : serveFile file left (.readAt position.toNat (wanted - data.length)) =
          (bytesAt file position (wanted - data.length), left) :=
        rfl
      rw [reach, hServe]
      dsimp only
      rw [needs_readAt (Nat.sub_pos_of_lt hShort)]
      apply Nat.max_le.mpr
      refine ⟨Nat.le_refl _, ?_⟩
      generalize hGot : bytesAt file position (wanted - data.length) = got
      split
      · exact Nat.zero_le _
      · rename_i hSome
        have hNonempty : got ≠ [] := fun h => hSome (h ▸ rfl)
        have hPosition := position_add hSize (hGot ▸ hNonempty)
        rw [hGot] at hPosition
        have hNext := ih (data ++ got) (position + UInt64.ofNat got.length) left
        rw [hPosition, List.length_append] at hNext
        split at hNext <;> omega
    · exact Nat.le_refl _

/-- Short reads do not show in the result of the loop. -/
theorem steady_readLoop (hSize : file.length < 2 ^ 64) {rounds wanted : Nat} {data : Bytes}
    (hRounds : wanted ≤ data.length + rounds) (position : UInt64) :
    Steady file limit (readLoop rounds position wanted data) := by
  intro k
  induction rounds generalizing position data with
  | zero => exact SteadyAt.done _
  | succ rounds ih =>
    intro B hSome h
    have hPlays : ∀ left, k.Fits limit left →
        B (data ++ bytesAt file position (wanted - data.length),
          position + UInt64.ofNat (bytesAt file position (wanted - data.length)).length) left := by
      intro left hFits
      have hPlay := (h left hFits).2
      rw [readLoop_play hSize hRounds] at hPlay
      exact hPlay
    by_cases hShort : data.length < wanted
    · have hReach : Within limit (position.toNat + (wanted - data.length)) := by
        obtain ⟨left, hFits⟩ := hSome
        apply (h left hFits).1.mono
        rw [readLoop, if_pos hShort, reach, needs_readAt (Nat.sub_pos_of_lt hShort)]
        exact Nat.le_max_left _ _
      rw [readLoop, if_pos hShort]
      refine ⟨?_, ?_⟩
      · rw [needs_readAt (Nat.sub_pos_of_lt hShort)]
        exact hReach
      · intro count hCount _ hZero
        change Program.Meets _ (if (bytesAt file position count).isEmpty then .done (data, position)
          else readLoop rounds (position + UInt64.ofNat (bytesAt file position count).length) wanted
            (data ++ bytesAt file position count)) k _
        split
        · rename_i hEmpty
          refine ⟨hSome, fun left hFits => ?_⟩
          have hNone : bytesAt file position (wanted - data.length) = [] := by
            have hLength := length_bytesAt file position count
            rw [List.isEmpty_iff.mp hEmpty, List.length_nil] at hLength
            apply List.length_eq_zero_iff.mp
            rw [length_bytesAt]
            omega
          have hPlay := hPlays left hFits
          rw [hNone] at hPlay
          simpa using hPlay
        · rename_i hNotEmpty
          have hGot : bytesAt file position count ≠ [] := fun hNil => hNotEmpty (hNil ▸ rfl)
          have hPosition := position_add hSize hGot
          have hMore := List.length_pos_iff.mpr hGot
          have hLength := length_bytesAt file position count
          apply ih (by rw [List.length_append]; omega) _ B hSome
          intro left hFits
          constructor
          · apply hReach.mono
            apply (reach_readLoop hSize _ _ _ _ _).trans
            rw [hPosition, List.length_append]
            split <;> omega
          · rw [readLoop_play hSize (by rw [List.length_append]; omega)]
            have hSplit := bytesAt_split hSize hCount hGot
            have hPlay := hPlays left hFits
            rw [hSplit, List.length_append, UInt64.ofNat_add, ← List.append_assoc,
              ← UInt64.add_assoc] at hPlay
            rw [List.length_append, ← Nat.sub_sub]
            exact hPlay
    · rw [readLoop, if_neg hShort]
      refine ⟨hSome, fun left hFits => ?_⟩
      have hPlay := hPlays left hFits
      rw [Nat.sub_eq_zero_of_le (Nat.not_lt.mp hShort), bytesAt_zero] at hPlay
      simpa using hPlay

end Reads

/-! ## The decoder on an upload in flight -/

section Live

variable {file : Bytes} {limit : Option Nat} {δ : Type}

theorem steady_callback (hSize : file.length < 2 ^ 64) (request : Callback) (position : UInt64) :
    Steady file limit (callback request position) := by
  cases request with
  | read bytesToRead =>
    apply Steady.bind
    · apply steady_readLoop hSize
      exact Nat.le_add_left _ _
    · intro read
      exact Steady.done _
  | seek offset origin =>
    cases origin with
    | start => exact Steady.done _
    | current => exact Steady.done _
    | fromEnd =>
      intro k
      apply SteadyAt.isComplete
      · exact SteadyAt.done _
      · exact SteadyAt.size rfl (SteadyAt.done _)

theorem steady_ite {p : Prop} [Decidable p] {a b : Consumer α} (ha : Steady file limit a)
    (hb : Steady file limit b) : Steady file limit (if p then a else b) := by
  split
  · exact ha
  · exact hb

namespace AudioDecoder

variable (ma : Miniaudio δ)

theorem steady_native (hSize : file.length < 2 ^ 64) (call : Program Callback Callback.Reply α)
    (position : UInt64) : Steady file limit (call.handle callback position) :=
  Steady.handle (steady_callback hSize) call position

theorem steady_measure (hSize : file.length < 2 ^ 64) (d : AudioDecoder δ) (known : Bool) :
    Steady file limit (d.measure ma known) := by
  apply steady_ite
  · apply (steady_native hSize _ _).bind
    intro measured
    exact steady_ite (Steady.done _) (Steady.done _)
  · exact Steady.done _

theorem steady_lengthKnown (headerDeclaresDuration : Bool) :
    Steady file limit (lengthKnown headerDeclaresDuration) := by
  apply steady_ite
  · exact Steady.done _
  · intro k
    exact SteadyAt.isComplete (SteadyAt.done _) (SteadyAt.done _)

theorem steady_create (hSize : file.length < 2 ^ 64) (headerDeclaresDuration : Bool) :
    Steady file limit (create ma headerDeclaresDuration) := by
  apply (steady_native hSize _ _).bind
  intro probe
  apply steady_ite (Steady.done _)
  apply (steady_native hSize _ _).bind
  intro opened
  apply steady_ite (Steady.done _)
  apply (steady_lengthKnown headerDeclaresDuration).bind
  intro known
  exact (steady_measure ma hSize _ known).bind fun d => Steady.done _

theorem steady_read (hSize : file.length < 2 ^ 64) (maxSamples : Nat) (d : AudioDecoder δ) :
    Steady file limit (read ma maxSamples d) := by
  apply (steady_native hSize _ _).bind
  intro decoded
  exact steady_ite (Steady.done _) (Steady.done _)

end AudioDecoder

variable (ma : Miniaudio δ) (reader : MediaFamily → DecoderInfo → PcmReader α)

theorem steady_listenTo (hSize : file.length < 2 ^ 64) (family : MediaFamily) :
    Steady file limit (listenTo ma reader family) := by
  apply steady_ite
  · apply (AudioDecoder.steady_create ma hSize _).bind
    intro created
    cases created with
    | error thrown => exact Steady.done _
    | ok d =>
      apply Steady.bind
      · exact Steady.handle (AudioDecoder.steady_read ma hSize) _ _
      · intro read
        exact Steady.done _
  · exact Steady.done _

/-- The first bytes are waited for, so that a single read gets all of them. -/
theorem steady_liveDecode (hSize : file.length < 2 ^ 64) :
    Steady file limit (liveDecode ma reader) := by
  intro k
  apply SteadyAt.waitForPrefix
  apply SteadyAt.isAborted
  apply SteadyAt.readAt
  · exact (Nat.zero_add _).trans_le (Nat.le_max_right _ _)
  · exact steady_listenTo ma reader hSize _ _

/-- The decoder and the upload loop of one call. -/
def liveCall (chunks : List Bytes) (ending : Ending) :
    Pool Upload StreamRequest StreamRequest.Answer (Listening α) :=
  ⟨Upload.start chunks ending, [liveDecode ma reader]⟩

/-- The outcomes on the file, as what every state of the call promises. -/
theorem liveCall_keeps {chunks : List Bytes} (hSize : chunks.flatten.length < 2 ^ 64)
    (limit : Option Nat) (B : Listening α → Prop)
    (hRuns : ∀ left, (limit ≠ none → left = none) →
      Within limit (reach chunks.flatten (liveDecode ma reader) left) ∧
        B ((liveDecode ma reader).play (serveFile chunks.flatten) left).1)
    (turns : List (Turn Unit Unit)) :
    ((liveCall ma reader chunks (if limit = none then .halfClose else .silent)).run uploadMachine
      Upload.advance turns).Keeps (uploading chunks.flatten limit)
      (Upload.Known chunks.flatten limit) fun _ outcome _ => B outcome := by
  apply Pool.Keeps.run (Upload.sound _ _)
  refine ⟨fun _ => ⟨false, 0⟩, ⟨Upload.Carries.start chunks limit, fun _ => ⟨fun hTold =>
    absurd hTold Bool.false_ne_true, Nat.zero_le _⟩⟩, ?_⟩
  intro index thread hThread
  cases index with
  | zero =>
    obtain rfl := Option.some.inj hThread
    have hSteady : Steady chunks.flatten limit (liveDecode ma reader) :=
      steady_liveDecode ma reader hSize
    have hMeets := hSteady ⟨false, 0⟩
      (fun outcome _ => B outcome)
      ⟨none, fun hTold => absurd hTold Bool.false_ne_true, fun _ => rfl⟩
      fun left hFits => hRuns left hFits.early
    exact hMeets.imp fun outcome k hDone => hDone.2 _ hDone.1.choose_spec
  | succ index => cases hThread

theorem liveCall_result {chunks : List Bytes} {limit : Option Nat} {B : Listening α → Prop}
    {pool : Pool Upload StreamRequest StreamRequest.Answer (Listening α)}
    (h : pool.Keeps (uploading chunks.flatten limit) (Upload.Known chunks.flatten limit)
      fun _ outcome _ => B outcome) {outcome : Listening α}
    (hDone : pool.result? 0 = some outcome) : B outcome := by
  obtain ⟨knowledge, -, hThreads⟩ := h
  exact hThreads 0 _ (Pool.result?_eq_some.mp hDone)

/-! ### Uploads in flight -/

def Upload.ended (u : Upload) : Prop := u.stream.complete = true ∨ u.stream.aborted = true

/-- The same call with a client that goes no further than what it has sent. -/
def silenced (pool : Pool Upload StreamRequest StreamRequest.Answer (Listening α)) :
    Pool Upload StreamRequest StreamRequest.Answer (Listening α) :=
  { pool with state := { pool.state with ending := .silent } }

variable {pool : Pool Upload StreamRequest StreamRequest.Answer (Listening α)}

theorem thread_turn_state (index : Nat) (moment : Unit) :
    (pool.turn uploadMachine Upload.advance (.thread index moment)).state = pool.state := by
  rw [Pool.turn]
  split
  · split
    · rename_i served hServed
      obtain ⟨answer, -, rfl⟩ := Option.map_eq_some_iff.mp hServed
      rfl
    · rfl
  · rfl

theorem turnsOf_state (n : Nat) :
    (pool.run uploadMachine Upload.advance (Pool.turnsOf 0 (fun _ => ()) n)).state =
      pool.state := by
  rw [Pool.turnsOf]
  induction List.range n generalizing pool with
  | nil => rfl
  | cons k rest ih => exact ih.trans (thread_turn_state 0 ())

theorem ended_turn (t : Turn Unit Unit) (h : pool.state.ended) :
    (pool.turn uploadMachine Upload.advance t).state.ended := by
  cases t with
  | thread index moment =>
    rw [thread_turn_state]
    exact h
  | outside move =>
    obtain ⟨⟨stream, coming, ending⟩, threads⟩ := pool
    cases coming with
    | cons chunk coming => exact h
    | nil =>
      cases ending with
      | halfClose => exact .inl rfl
      | gone => exact .inr rfl
      | silent => exact h

theorem ended_run (turns : List (Turn Unit Unit)) (h : pool.state.ended) :
    (pool.run uploadMachine Upload.advance turns).state.ended := by
  induction turns generalizing pool with
  | nil => exact h
  | cons t turns ih => exact ih (ended_turn t h)

theorem turn_silenced (t : Turn Unit Unit)
    (h : ¬(pool.turn uploadMachine Upload.advance t).state.ended) :
    silenced (pool.turn uploadMachine Upload.advance t) =
      (silenced pool).turn uploadMachine Upload.advance t := by
  obtain ⟨⟨stream, coming, ending⟩, threads⟩ := pool
  cases t with
  | thread index moment =>
    simp only [Pool.turn, silenced]
    cases hThread : threads[index]? with
    | none => rfl
    | some thread =>
      cases thread with
      | done outcome => rfl
      | perform request next =>
        have hAnswer : Upload.answer ⟨stream, coming, .silent⟩ request =
            Upload.answer ⟨stream, coming, ending⟩ request := by
          cases request <;> rfl
        simp only [uploadMachine, hAnswer]
        cases Upload.answer ⟨stream, coming, ending⟩ request <;> rfl
  | outside move =>
    cases coming with
    | cons chunk coming => rfl
    | nil =>
      cases ending with
      | halfClose => exact absurd (.inl rfl) h
      | gone => exact absurd (.inr rfl) h
      | silent => rfl

/-- As long as the upload is in flight, how it will end makes no difference. -/
theorem run_silenced (turns : List (Turn Unit Unit))
    (h : ¬(pool.run uploadMachine Upload.advance turns).state.ended) :
    silenced (pool.run uploadMachine Upload.advance turns) =
      (silenced pool).run uploadMachine Upload.advance turns := by
  induction turns generalizing pool with
  | nil => rfl
  | cons t turns ih =>
    have hNow : ¬(pool.turn uploadMachine Upload.advance t).state.ended :=
      fun hEnded => h (ended_run turns hEnded)
    have hLater := ih h
    rw [turn_silenced t hNow] at hLater
    exact hLater

theorem liveCall_thread (chunks : List Bytes) (ending : Ending) (turns : List (Turn Unit Unit)) :
    ∃ thread, ((liveCall ma reader chunks ending).run uploadMachine Upload.advance
      turns).threads[0]? = some thread := by
  have hLength :=
    Pool.length_run uploadMachine Upload.advance (liveCall ma reader chunks ending) turns
  have hThere : 0 < ((liveCall ma reader chunks ending).run uploadMachine Upload.advance
      turns).threads.length := by
    rw [hLength]
    exact Nat.one_pos
  exact ⟨_, List.getElem?_eq_getElem hThere⟩

/-- The outcome of the live path is that of a run on the complete file, which hears at some
moment that the file is complete; the reads and the upload may interleave in any way. Once the
upload has ended, cleanly or not, the decoder needs nothing but turns. -/
theorem live_decoding_agrees {chunks : List Bytes} (hSize : chunks.flatten.length < 2 ^ 64)
    (ending : Ending) (turns : List (Turn Unit Unit)) :
    let pool := (liveCall ma reader chunks ending).run uploadMachine Upload.advance turns
    (ending = .halfClose → ∀ outcome, pool.result? 0 = some outcome →
      ∃ left, outcome = ((liveDecode ma reader).play (serveFile chunks.flatten) left).1) ∧
    (pool.state.ended → ∃ n outcome,
      (pool.run uploadMachine Upload.advance (Pool.turnsOf 0 (fun _ => ()) n)).result? 0 =
        some outcome) := by
  constructor
  · rintro rfl outcome hDone
    have hKeeps := liveCall_keeps ma reader hSize none
      (fun outcome => ∃ left,
        outcome = ((liveDecode ma reader).play (serveFile chunks.flatten) left).1)
      (fun left _ => ⟨fun _ hBound => absurd hBound (Option.not_mem_none _), left, rfl⟩) turns
    exact liveCall_result hKeeps hDone
  · intro hEnded
    obtain ⟨thread, hThread⟩ := liveCall_thread ma reader chunks ending turns
    refine Pool.finishes_served (J := Upload.ended) ?_ _ _ hEnded hThread fun _ => ()
    intro u index moment request hOver
    have hAnswer : ∃ answer, u.answer request = some answer := by
      have hStream : (u.stream.aborted || u.stream.complete) = true := by
        rcases hOver with hComplete | hAborted
        · rw [hComplete, Bool.or_true]
        · rw [hAborted, Bool.true_or]
      cases request with
      | waitForPrefix size =>
        rw [Upload.answer, ByteStream.waitForPrefix, hStream]
        exact ⟨_, rfl⟩
      | isAborted => exact ⟨_, rfl⟩
      | readAt offset size =>
        rw [Upload.answer, ByteStream.readAt, hStream]
        exact ⟨_, rfl⟩
      | isComplete => exact ⟨_, rfl⟩
      | size => exact ⟨_, rfl⟩
    obtain ⟨answer, hAnswer⟩ := hAnswer
    exact ⟨(answer, u), congrArg (Option.map fun answer => (answer, u)) hAnswer, hOver⟩

/-- A flac signature with nothing behind it, which no backend of miniaudio opens. -/
def garbled : List Bytes := [[0x66, 0x4C, 0x61, 0x43, 0, 0, 0, 0], List.replicate 8 0]

def noBackend : Miniaudio Unit where
  init _ := .perform (.read 4) fun _ => .perform (.seek 0 .start) fun _ => .done (-203, ())
  dataFormat _ := (0, 0)
  lengthInPcmFrames _ := .done ((-203, 0), ())
  readPcmFrames _ _ := .done ((-203, []), ())
  resultDescription _ := "No backend"

def noReader : MediaFamily → DecoderInfo → PcmReader Unit := fun _ _ => .done ()

theorem live_decoding_agrees_garbled :
    ∃ left, .failed (AudioDecoder.cannotDecode noBackend (-203)) =
      ((liveDecode noBackend noReader).play (serveFile garbled.flatten) left).1 :=
  (live_decoding_agrees noBackend noReader (show garbled.flatten.length < 2 ^ 64 by decide)
    .halfClose
    [.thread 0 (), .outside (), .thread 0 (), .outside (), .thread 0 (), .thread 0 (), .thread 0 (),
      .thread 0 ()]).1 rfl _ rfl

/-- While the upload is in flight the decoder waits for no bytes but those it reads: with the
bytes that its run on the file needs, it gets as far as on the file. -/
theorem decodes_while_uploading {chunks : List Bytes} (hSize : chunks.flatten.length < 2 ^ 64)
    {ending : Ending} {turns : List (Turn Unit Unit)}
    (hInFlight : ¬((liveCall ma reader chunks ending).run uploadMachine Upload.advance
      turns).state.ended)
    (hArrived : reach chunks.flatten (liveDecode ma reader) none ≤
      ((liveCall ma reader chunks ending).run uploadMachine Upload.advance
        turns).state.stream.bytes.length) :
    ∃ n, (((liveCall ma reader chunks ending).run uploadMachine Upload.advance turns).run
      uploadMachine Upload.advance (Pool.turnsOf 0 (fun _ => ()) n)).result? 0 =
        some ((liveDecode ma reader).play (serveFile chunks.flatten) none).1 := by
  let needed := reach chunks.flatten (liveDecode ma reader) none
  have hKeeps := liveCall_keeps ma reader hSize (some needed)
    (fun outcome => outcome = ((liveDecode ma reader).play (serveFile chunks.flatten) none).1)
    (fun left hEarly => by
      obtain rfl := hEarly (Option.some_ne_none _)
      refine ⟨fun bound hBound => ?_, rfl⟩
      obtain rfl := Option.some.inj hBound
      exact Nat.le_refl _) turns
  have hSilent : (liveCall ma reader chunks .silent).run uploadMachine Upload.advance turns =
      silenced ((liveCall ma reader chunks ending).run uploadMachine Upload.advance turns) :=
    (run_silenced turns hInFlight).symm
  rw [if_neg (Option.some_ne_none _), hSilent] at hKeeps
  obtain ⟨thread, hThread⟩ := liveCall_thread ma reader chunks ending turns
  obtain ⟨n, outcome, hDone⟩ := hKeeps.finishes (Upload.sound _ _)
    (J := fun u => needed ≤ u.stream.bytes.length) (by
    intro u knowledge index request Q moment hKnown hThere hHolds
    have hNeeds : request.needs ≤ u.stream.bytes.length :=
      (hHolds.1 needed rfl).trans hThere
    have hAnswer : ∃ answer, u.answer request = some answer := by
      cases request with
      | waitForPrefix size =>
        refine ⟨min u.stream.bytes.length size, ?_⟩
        have hEnough : size ≤ u.stream.bytes.length := hNeeds
        simp [Upload.answer, ByteStream.waitForPrefix, hEnough]
      | isAborted => exact ⟨_, rfl⟩
      | readAt offset size =>
        have hMore : offset < u.stream.bytes.length := by
          have hLe : offset + max size 1 ≤ u.stream.bytes.length := hNeeds
          omega
        rw [Upload.answer, ByteStream.readAt]
        simp only [hMore, decide_true, Bool.or_true, if_true]
        exact ⟨_, rfl⟩
      | isComplete => exact ⟨_, rfl⟩
      | size => exact ⟨_, rfl⟩
    obtain ⟨answer, hAnswer⟩ := hAnswer
    exact ⟨(answer, u), congrArg (Option.map fun answer => (answer, u)) hAnswer, hThere⟩)
    hArrived hThread fun _ => ()
  have hStill : ¬(((liveCall ma reader chunks ending).run uploadMachine Upload.advance turns).run
      uploadMachine Upload.advance (Pool.turnsOf 0 (fun _ => ()) n)).state.ended := by
    rw [turnsOf_state]
    exact hInFlight
  have hLater := hKeeps.run (Upload.sound _ _) (Pool.turnsOf 0 (fun _ => ()) n)
  have hOutcome := liveCall_result hLater hDone
  refine ⟨n, ?_⟩
  rw [← run_silenced _ hStill] at hDone
  rw [← hOutcome]
  exact hDone

theorem decodes_while_uploading_garbled :
    ∃ n, (((liveCall noBackend noReader garbled .halfClose).run uploadMachine Upload.advance
      [.outside (), .thread 0 (), .outside ()]).run uploadMachine Upload.advance
        (Pool.turnsOf 0 (fun _ => ()) n)).result? 0 =
      some ((liveDecode noBackend noReader).play (serveFile garbled.flatten) none).1 := by
  apply decodes_while_uploading noBackend noReader (show garbled.flatten.length < 2 ^ 64 by decide)
  · rintro (h | h)
    · cases h
    · cases h
  · decide

end Live

end GrpcAsr.Asr
