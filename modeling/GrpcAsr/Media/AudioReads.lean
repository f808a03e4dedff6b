import GrpcAsr.Media.VideoDemux

/-!
# Samples of any reads

A call takes over what the last one left, fewer than four bytes, and reads on until there is a
whole sample. What is left and what is still in the pipe are the stream behind the samples that
were returned, whatever the sizes of the reads and of the output buffers.
-/

namespace GrpcAsr.Media

set_option autoImplicit false

section Pipe

variable {pipe : AudioPipe} {maxBytes : Nat}

theorem AudioPipe.read_append : (pipe.read maxBytes).1 ++ (pipe.read maxBytes).2.rest = pipe.rest :=
  List.take_append_drop _ _

theorem AudioPipe.read_le : (pipe.read maxBytes).1.length ≤ maxBytes := by
  rw [read, List.length_take]
  omega

theorem AudioPipe.read_empty (hRoom : 0 < maxBytes) :
    (pipe.read maxBytes).1.isEmpty = true ↔ pipe.rest = [] := by
  rw [List.isEmpty_iff, read, List.take_eq_nil_iff]
  constructor
  · rintro (hZero | hRest)
    · omega
    · exact hRest
  · exact .inr

end Pipe

theorem memcpy_middle {front tail data : Bytes} (h : data.length ≤ tail.length) :
    memcpy (front ++ tail) front.length data = some (front ++ data ++ tail.drop data.length) := by
  rw [memcpy, if_pos]
  · rw [List.take_left, List.drop_append, List.drop_of_length_le (by omega), List.nil_append,
      Nat.add_sub_cancel_left]
  · rw [List.length_append]
    omega

/-- The loop of a call: it fills up to a sample where the stream holds one. -/
theorem fillSample_spec {wantBytes : Nat} (hWant : 4 ≤ wantBytes) (pipe : AudioPipe) (front tail : Bytes)
    (hBuffer : front.length + tail.length = wantBytes) :
    (4 ≤ front.length + pipe.rest.length →
      ∃ moved rest next, fillSample wantBytes pipe (front ++ tail) front.length =
          (.filled (front ++ moved ++ rest) (front ++ moved).length, next) ∧
        pipe.rest = moved ++ next.rest ∧ 4 ≤ (front ++ moved).length ∧
        (front ++ moved).length ≤ wantBytes) ∧
      (front.length + pipe.rest.length < 4 →
        ∃ next, fillSample wantBytes pipe (front ++ tail) front.length =
          (if front ++ pipe.rest = [] then .ended else .midSample, next)) := by
  induction hLeft : pipe.rest.length using Nat.strongRecOn generalizing pipe front tail with
  | ind left ih =>
    subst hLeft
    rw [fillSample]
    by_cases hWhole : 4 ≤ front.length
    · rw [if_pos hWhole]
      constructor
      · intro _
        exact ⟨[], tail, pipe, by simp, rfl, by simpa using hWhole, by simp; omega⟩
      · intro hShort
        omega
    · have hRoom : sizeSub wantBytes front.length = wantBytes - front.length := if_pos (by omega)
      have hEmpty := @AudioPipe.read_empty pipe (wantBytes - front.length) (by omega)
      have hSplit := @AudioPipe.read_append pipe (wantBytes - front.length)
      have hSize := @AudioPipe.read_le pipe (wantBytes - front.length)
      rw [if_neg hWhole, hRoom]
      by_cases hEnd : pipe.rest = []
      · rw [dif_pos (hEmpty.mpr hEnd), hEnd, List.append_nil]
        constructor
        · intro hEnough
          rw [List.length_nil] at hEnough
          omega
        · intro _
          refine ⟨(pipe.read (wantBytes - front.length)).2, ?_⟩
          cases front with
          | nil => rfl
          | cons c front => rfl
      · have hData := mt hEmpty.mp hEnd
        have hPositive := AudioPipe.read_nonempty hData
        rw [dif_neg hData, memcpy_middle (by omega)]
        generalize pipe.read (wantBytes - front.length) = read at *
        obtain ⟨data, next⟩ := read
        dsimp only at *
        have hRest : pipe.rest.length = data.length + next.rest.length := by
          rw [← hSplit, List.length_append]
        have hFront : (front ++ data).length = front.length + data.length := List.length_append
        have hTail : (front ++ data).length + (tail.drop data.length).length = wantBytes := by
          rw [hFront, List.length_drop]
          omega
        obtain ⟨hFilled, hShort⟩ := ih next.rest.length (by omega) next (front ++ data) _ hTail rfl
        rw [hFront] at hFilled hShort
        constructor
        · intro hEnough
          obtain ⟨moved, rest, last, hResult, hMoved, hLow, hHigh⟩ := hFilled (by omega)
          refine ⟨data ++ moved, rest, last, ?_, ?_, ?_, ?_⟩
          · rw [hResult]
            simp only [List.append_assoc]
          · rw [← hSplit, hMoved, List.append_assoc]
          · rw [← List.append_assoc]
            exact hLow
          · rw [← List.append_assoc]
            exact hHigh
        · intro hFew
          obtain ⟨last, hResult⟩ := hShort (by omega)
          refine ⟨last, ?_⟩
          rw [hResult, List.append_assoc, hSplit]

theorem exists_quad {bytes : Bytes} (h : 4 ≤ bytes.length) :
    ∃ a b c d rest, bytes = a :: b :: c :: d :: rest := by
  match bytes, h with
  | a :: b :: c :: d :: rest, _ => exact ⟨a, b, c, d, rest, rfl⟩

/-- Whole groups in front come apart from what is behind them. -/
theorem quads_append (front back : Bytes) (count : Nat) (h : front.length = count * 4) :
    quads (front ++ back) = quads front ++ quads back ∧ (quads front).length = count := by
  induction count generalizing front with
  | zero =>
    obtain rfl := List.eq_nil_of_length_eq_zero (by omega)
    exact ⟨rfl, rfl⟩
  | succ count ih =>
    obtain ⟨a, b, c, d, rest, rfl⟩ := @exists_quad front (by omega)
    obtain ⟨hAppend, hLength⟩ := ih rest (by simp only [List.length_cons] at h; omega)
    exact ⟨congrArg (List.cons [a, b, c, d]) hAppend, congrArg Nat.succ hLength⟩

theorem quads_short {bytes : Bytes} (h : bytes.length < 4) : quads bytes = [] := by
  rw [quads.eq_def]
  split
  · simp only [List.length_cons] at h
    omega
  · rfl

/-- What the reader holds: less than a sample it took over, and the pipe. -/
def AudioReader.stream (reader : AudioReader) : Bytes := reader.partialSample ++ reader.pipe.rest

/-- One call: samples from the front of the stream, at least one where there is one. -/
theorem readAudio_spec (reader : AudioReader) (hPartial : reader.partialSample.length < 4)
    {buffer : Bytes} {maxSamples : Nat} (hMax : 1 ≤ maxSamples) (hBuffer : buffer.length = maxSamples * 4) :
    (4 ≤ reader.stream.length →
      ∃ raw out next front, readAudio reader buffer maxSamples = (.samples raw out, next) ∧
        raw ≠ [] ∧ raw.length ≤ maxSamples ∧ next.partialSample.length < 4 ∧
        reader.stream = front ++ next.stream ∧ front.length = raw.length * 4 ∧ raw = quads front) ∧
      (reader.stream.length < 4 →
        (readAudio reader buffer maxSamples).1 =
          if reader.stream = [] then .samples [] []
          else .thrown (.decode (ascii "audio stream ended mid-sample"))) := by
  have hCopy : memcpy buffer 0 reader.partialSample =
      some (reader.partialSample ++ buffer.drop reader.partialSample.length) :=
    @memcpy_middle [] buffer reader.partialSample (by omega)
  obtain ⟨hFilled, hShort⟩ := @fillSample_spec (maxSamples * 4) (by omega) reader.pipe reader.partialSample
    (buffer.drop reader.partialSample.length) (by rw [List.length_drop]; omega)
  have hStream : reader.stream.length = reader.partialSample.length + reader.pipe.rest.length :=
    List.length_append
  constructor
  · intro hEnough
    obtain ⟨moved, rest, next, hResult, hMoved, hLow, hHigh⟩ := hFilled (by omega)
    have hData : reader.stream = reader.partialSample ++ moved ++ next.rest := by
      rw [AudioReader.stream, hMoved, List.append_assoc]
    generalize reader.partialSample ++ moved = data at *
    have hWhole : data.length / 4 * 4 ≤ data.length := Nat.div_mul_le_self _ _
    have hFront : (data.take (data.length / 4 * 4)).length = data.length / 4 * 4 := by
      rw [List.length_take, Nat.min_eq_left hWhole]
    have hCount := (quads_append _ [] _ hFront).2
    have hRead : readAudio reader buffer maxSamples =
        (.samples (quads (data.take (data.length / 4 * 4)))
            ((quads (data.take (data.length / 4 * 4))).map fun bytes => scrubSample (floatOf bytes)),
          ⟨next, data.drop (data.length / 4 * 4)⟩) := by
      rw [readAudio, hCopy]
      dsimp only
      rw [hResult]
      dsimp only
      rw [List.take_append_of_le_length hWhole, List.take_left]
    refine ⟨_, _, _, data.take (data.length / 4 * 4), hRead, ?_, ?_, ?_, ?_, ?_, rfl⟩
    · apply List.ne_nil_of_length_pos
      omega
    · omega
    · rw [List.length_drop]
      omega
    · rw [hData, AudioReader.stream, ← List.append_assoc, List.take_append_drop]
    · rw [hFront, hCount]
  · intro hFew
    obtain ⟨next, hResult⟩ := hShort (by omega)
    rw [readAudio, hCopy]
    dsimp only
    rw [hResult]
    have hSame : reader.partialSample ++ reader.pipe.rest = reader.stream := rfl
    rw [hSame]
    by_cases hEmpty : reader.stream = []
    · rw [if_pos hEmpty, if_pos hEmpty]
    · rw [if_neg hEmpty, if_neg hEmpty]

/-- The end of the calls on a stream. -/
def audioEnd (stream : Bytes) : AudioRead :=
  if stream.length % 4 = 0 then .samples [] []
  else .thrown (.decode (ascii "audio stream ended mid-sample"))

theorem audioCalls_exact (buffers : Nat → Bytes) (maxSamples : Nat → Nat) (hMax : ∀ call, 1 ≤ maxSamples call)
    (hBuffers : ∀ call, (buffers call).length = maxSamples call * 4) {fuel : Nat} (first : Nat)
    {reader : AudioReader} (hPartial : reader.partialSample.length < 4)
    (hFuel : reader.stream.length < fuel * 4) :
    (audioCalls buffers maxSamples fuel first reader).1.flatten = quads reader.stream ∧
      (∀ call raw, (audioCalls buffers maxSamples fuel first reader).1[call]? = some raw →
        raw ≠ [] ∧ raw.length ≤ maxSamples (first + call)) ∧
      (audioCalls buffers maxSamples fuel first reader).2 = some (audioEnd reader.stream) := by
  induction fuel generalizing first reader with
  | zero => omega
  | succ fuel ih =>
    obtain ⟨hSamples, hEnd⟩ := readAudio_spec reader hPartial (hMax first) (hBuffers first)
    by_cases hEnough : 4 ≤ reader.stream.length
    · obtain ⟨raw, out, next, front, hRead, hNonempty, hBound, hNext, hStream, hFront, hRaw⟩ :=
        hSamples hEnough
      obtain ⟨head, raw, rfl⟩ := List.exists_cons_of_ne_nil hNonempty
      have hStep : audioCalls buffers maxSamples (fuel + 1) first reader =
          ((head :: raw) :: (audioCalls buffers maxSamples fuel (first + 1) next).1,
            (audioCalls buffers maxSamples fuel (first + 1) next).2) := by
        rw [audioCalls, hRead]
      have hLength : reader.stream.length = front.length + next.stream.length := by
        rw [hStream, List.length_append]
      have hPositive : 0 < (head :: raw).length := List.length_pos_of_ne_nil hNonempty
      obtain ⟨hGroups, hCalls, hLast⟩ := ih (first + 1) hNext (by omega)
      rw [hStep]
      refine ⟨?_, ?_, ?_⟩
      · rw [List.flatten_cons, hGroups, hRaw, hStream, (quads_append front _ _ hFront).1]
      · rintro (_ | call) other hOther
        · obtain rfl := Option.some.inj hOther
          exact ⟨hNonempty, hBound⟩
        · rw [← Nat.succ_add_eq_add_succ]
          exact hCalls call other hOther
      · rw [hLast, audioEnd, audioEnd, hLength, hFront, Nat.add_comm, Nat.add_mul_mod_self_right]
    · have hFew : reader.stream.length < 4 := by omega
      have hRead := hEnd hFew
      have hSame : audioEnd reader.stream =
          if reader.stream = [] then .samples [] []
          else .thrown (.decode (ascii "audio stream ended mid-sample")) := by
        rw [audioEnd, Nat.mod_eq_of_lt hFew]
        simp only [List.length_eq_zero_iff]
      have hStep : audioCalls buffers maxSamples (fuel + 1) first reader =
          ([], some (readAudio reader (buffers first) (maxSamples first)).1) := by
        rw [audioCalls]
        split
        · rename_i raw out next hSamples
          rw [hSamples] at hRead
          by_cases hEmpty : reader.stream = []
          · rw [if_pos hEmpty] at hRead
            cases hRead
          · rw [if_neg hEmpty] at hRead
            cases hRead
        · rename_i last next _ hLast
          rw [hLast]
      rw [hStep, quads_short hFew, hSame, hRead]
      refine ⟨rfl, ?_, rfl⟩
      intro call raw hCall
      cases hCall

theorem quads_groups (bytes : Bytes) :
    (∀ group ∈ quads bytes, group.length = 4) ∧ (quads bytes).flatten = bytes.take (bytes.length / 4 * 4) := by
  fun_induction quads bytes with
  | case1 a b c d rest ih =>
    have hCount : (a :: b :: c :: d :: rest).length / 4 * 4 = rest.length / 4 * 4 + 4 := by
      simp only [List.length_cons]
      omega
    rw [List.forall_mem_cons, List.flatten_cons, ih.2, hCount]
    exact ⟨⟨rfl, ih.1⟩, rfl⟩
  | case2 bytes h =>
    have hShort : bytes.length < 4 := by
      by_contra hLong
      obtain ⟨a, b, c, d, rest, rfl⟩ := exists_quad (Nat.le_of_not_lt hLong)
      exact h a b c d rest rfl
    rw [Nat.div_eq_of_lt hShort]
    exact ⟨List.forall_mem_nil _, rfl⟩

theorem audio_reassembled (stream : Bytes) (sizes : Nat → Nat) (buffers : Nat → Bytes)
    (maxSamples : Nat → Nat) (hMax : ∀ call, 1 ≤ maxSamples call)
    (hBuffers : ∀ call, (buffers call).length = maxSamples call * 4) {fuel : Nat}
    (hFuel : stream.length < fuel * 4) :
    (∀ group ∈ (audioCalls buffers maxSamples fuel 0 ⟨⟨stream, sizes⟩, []⟩).1.flatten, group.length = 4) ∧
      (audioCalls buffers maxSamples fuel 0 ⟨⟨stream, sizes⟩, []⟩).1.flatten.flatten =
        stream.take (stream.length / 4 * 4) ∧
      (∀ call raw, (audioCalls buffers maxSamples fuel 0 ⟨⟨stream, sizes⟩, []⟩).1[call]? = some raw →
        raw ≠ [] ∧ raw.length ≤ maxSamples call) ∧
      (audioCalls buffers maxSamples fuel 0 ⟨⟨stream, sizes⟩, []⟩).2 =
        some (if stream.length % 4 = 0 then .samples [] []
          else .thrown (.decode (ascii "audio stream ended mid-sample"))) := by
  obtain ⟨hGroups, hCalls, hLast⟩ := @audioCalls_exact buffers maxSamples hMax hBuffers fuel 0
    ⟨⟨stream, sizes⟩, []⟩ (Nat.zero_lt_succ 3) hFuel
  have hStream : AudioReader.stream ⟨⟨stream, sizes⟩, []⟩ = stream := rfl
  rw [hStream] at hGroups hLast
  rw [hGroups]
  refine ⟨(quads_groups stream).1, (quads_groups stream).2, ?_, hLast⟩
  intro call raw hCall
  have hBound := hCalls call raw hCall
  rw [Nat.zero_add] at hBound
  exact hBound

theorem audio_reassembled_cut :
    (audioCalls (fun _ => [0, 0, 0, 0]) (fun _ => 1) 2 0 ⟨⟨[1, 2, 3, 4, 5], fun _ => 3⟩, []⟩).1.flatten.flatten =
        [1, 2, 3, 4] ∧
      (audioCalls (fun _ => [0, 0, 0, 0]) (fun _ => 1) 2 0 ⟨⟨[1, 2, 3, 4, 5], fun _ => 3⟩, []⟩).2 =
        some (.thrown (.decode (ascii "audio stream ended mid-sample"))) := by
  obtain ⟨-, hStream, -, hLast⟩ := audio_reassembled [1, 2, 3, 4, 5] (fun _ => 3) (fun _ => [0, 0, 0, 0])
    (fun _ => 1) (fun _ => Nat.le_refl 1) (fun _ => rfl) (show 5 < 2 * 4 by decide)
  exact ⟨hStream, hLast⟩

end GrpcAsr.Media
