import GrpcAsr.Media.VideoDemux

/-!
# Chunks of a PNG image

A chunk is the length of its data, a type, the data and a checksum. The walk over the chunks of
a buffer ends behind the first IEND, wherever the buffer ends after it, and what it has gone
over are chunks of which exactly the last is an IEND.
-/

namespace GrpcAsr.Media

set_option autoImplicit false

/-- The number that bytes in big-endian order stand for. -/
def beNat (bytes : Bytes) : Nat := bytes.foldl (fun value c => value * 256 + c.toNat) 0

theorem readBe32_quad (a b c d : UInt8) (rest : Bytes) :
    (readBe32 (a :: b :: c :: d :: rest)).toNat = beNat [a, b, c, d] := by
  have ha := a.toNat_lt
  have hb := b.toNat_lt
  have hc := c.toNat_lt
  have hd := d.toNat_lt
  have hLow : c.toNat * 2 ^ 8 ||| d.toNat = c.toNat * 2 ^ 8 + d.toNat := by
    rw [← Nat.shiftLeft_eq, Nat.shiftLeft_add_eq_or_of_lt hd]
  have hMiddle : b.toNat * 2 ^ 16 ||| (c.toNat * 2 ^ 8 + d.toNat) =
      b.toNat * 2 ^ 16 + (c.toNat * 2 ^ 8 + d.toNat) := by
    rw [← Nat.shiftLeft_eq, Nat.shiftLeft_add_eq_or_of_lt (by omega)]
  have hHigh : a.toNat * 2 ^ 24 ||| (b.toNat * 2 ^ 16 + (c.toNat * 2 ^ 8 + d.toNat)) =
      a.toNat * 2 ^ 24 + (b.toNat * 2 ^ 16 + (c.toNat * 2 ^ 8 + d.toNat)) := by
    rw [← Nat.shiftLeft_eq, Nat.shiftLeft_add_eq_or_of_lt (by omega)]
  have hShift : ∀ (x : UInt8) (k : UInt32), k.toNat ≤ 24 →
      (x.toUInt32 <<< k).toNat = x.toNat * 2 ^ k.toNat := by
    intro x k hk
    have hx := x.toNat_lt
    have hPower : 2 ^ k.toNat ≤ 2 ^ 24 := Nat.pow_le_pow_right (by decide) hk
    have hProduct : x.toNat * 2 ^ k.toNat ≤ 255 * 2 ^ 24 := Nat.mul_le_mul (by omega) hPower
    have hSmall : k.toNat < 32 := by omega
    have hFits : x.toNat * 2 ^ k.toNat < 2 ^ 32 := by omega
    rw [UInt32.toNat_shiftLeft, UInt8.toNat_toUInt32, Nat.mod_eq_of_lt hSmall, Nat.shiftLeft_eq,
      Nat.mod_eq_of_lt hFits]
  show (a.toUInt32 <<< 24 ||| b.toUInt32 <<< 16 ||| c.toUInt32 <<< 8 ||| d.toUInt32).toNat = _
  rw [UInt32.toNat_or, UInt32.toNat_or, UInt32.toNat_or, hShift a 24 (by decide), hShift b 16 (by decide),
    hShift c 8 (by decide), UInt8.toNat_toUInt32, Nat.or_assoc, Nat.or_assoc]
  show a.toNat * 2 ^ 24 ||| (b.toNat * 2 ^ 16 ||| (c.toNat * 2 ^ 8 ||| d.toNat)) =
    (((0 * 256 + a.toNat) * 256 + b.toNat) * 256 + c.toNat) * 256 + d.toNat
  rw [hLow, hMiddle, hHigh]
  omega

theorem readBe32_toNat {bytes : Bytes} (h : 4 ≤ bytes.length) :
    (readBe32 bytes).toNat = beNat (bytes.take 4) := by
  match bytes, h with
  | a :: b :: c :: d :: rest, _ => exact readBe32_quad a b c d rest

theorem readBe32_congr {left right : Bytes} (hLeft : 4 ≤ left.length) (hRight : 4 ≤ right.length)
    (h : left.take 4 = right.take 4) : readBe32 left = readBe32 right := by
  apply UInt32.toNat_inj.mp
  rw [readBe32_toNat hLeft, readBe32_toNat hRight, h]

/-- A chunk of an image: the length of its data, its type, the data and their checksum. -/
structure Chunk where
  length : Bytes
  type : Bytes
  data : Bytes
  crc : Bytes
  lengthBytes : length.length = 4
  typeBytes : type.length = 4
  crcBytes : crc.length = 4
  declared : beNat length = data.length

def Chunk.bytes (chunk : Chunk) : Bytes := chunk.length ++ chunk.type ++ chunk.data ++ chunk.crc

theorem Chunk.bytes_length (chunk : Chunk) : chunk.bytes.length = 8 + chunk.data.length + 4 := by
  rw [bytes, List.length_append, List.length_append, List.length_append, chunk.lengthBytes,
    chunk.typeBytes, chunk.crcBytes]

section Walk

variable {buffer : Bytes} {offset stop : Nat}

theorem chunkTotal_append (later : Bytes) (h : offset + 8 ≤ buffer.length) :
    chunkTotal (buffer ++ later) offset = chunkTotal buffer offset ∧
      isEnd (buffer ++ later) offset = isEnd buffer offset := by
  have hDrop : (buffer ++ later).drop offset = buffer.drop offset ++ later :=
    List.drop_append_of_le_length (by omega)
  have hLength : (buffer.drop offset).length = buffer.length - offset := List.length_drop
  constructor
  · rw [chunkTotal, chunkTotal, hDrop]
    have hSame : readBe32 (buffer.drop offset ++ later) = readBe32 (buffer.drop offset) := by
      apply readBe32_congr
      · rw [List.length_append]
        omega
      · omega
      · rw [List.take_append_of_le_length (by omega)]
    rw [hSame]
  · rw [isEnd, isEnd, List.drop_append_of_le_length (by omega), List.take_append_of_le_length]
    rw [List.length_drop]
    omega

theorem imageEnd_append (later : Bytes) (h : imageEnd buffer offset = some stop) :
    imageEnd (buffer ++ later) offset = some stop := by
  have hLength : (buffer ++ later).length = buffer.length + later.length := List.length_append
  induction offset using imageEnd.induct buffer with
  | case1 offset hShort =>
    rw [imageEnd, if_pos hShort] at h
    cases h
  | case2 offset hHeader hShort =>
    rw [imageEnd, if_neg hHeader, if_pos hShort] at h
    cases h
  | case3 offset hHeader hChunk hEnd =>
    obtain ⟨hTotal, hSame⟩ := chunkTotal_append later (Nat.le_of_not_lt hHeader)
    rw [imageEnd, if_neg hHeader, if_neg hChunk, if_pos hEnd] at h
    rw [imageEnd, if_neg (by omega), hTotal, if_neg (by omega), hSame, if_pos hEnd, h]
  | case4 offset hHeader hChunk hEnd ih =>
    obtain ⟨hTotal, hSame⟩ := chunkTotal_append later (Nat.le_of_not_lt hHeader)
    rw [imageEnd, if_neg hHeader, if_neg hChunk, if_neg hEnd] at h
    rw [imageEnd, if_neg (by omega), hTotal, if_neg (by omega), hSame, if_neg hEnd, ih h]

/-- At a chunk the walk reads its size and its type. -/
theorem header_chunk (front back : Bytes) (chunk : Chunk) :
    chunkTotal (front ++ (chunk.bytes ++ back)) front.length = chunk.bytes.length ∧
      isEnd (front ++ (chunk.bytes ++ back)) front.length = (chunk.type == ascii "IEND") := by
  have hSplit : chunk.bytes ++ back = chunk.length ++ (chunk.type ++ (chunk.data ++ (chunk.crc ++ back))) := by
    rw [Chunk.bytes]
    simp
  constructor
  · rw [chunkTotal, List.drop_left, readBe32_toNat, hSplit, List.take_left' chunk.lengthBytes,
      chunk.declared, chunk.bytes_length]
    rw [List.length_append, chunk.bytes_length]
    omega
  · have hFour : front.length + 4 = (front ++ chunk.length).length := by
      rw [List.length_append, chunk.lengthBytes]
    rw [isEnd, hSplit, hFour, ← List.append_assoc, List.drop_left, List.take_left' chunk.typeBytes]

theorem imageEnd_last (front back : Bytes) (chunk : Chunk) (h : chunk.type = ascii "IEND") :
    imageEnd (front ++ (chunk.bytes ++ back)) front.length = some (front ++ chunk.bytes).length := by
  obtain ⟨hTotal, hEnd⟩ := header_chunk front back chunk
  have hLength := chunk.bytes_length
  rw [imageEnd, hTotal, hEnd, h]
  simp only [List.length_append, beq_self_eq_true, if_true]
  rw [if_neg (by omega), if_neg (by omega)]

theorem imageEnd_chunk (front back : Bytes) (chunk : Chunk) (h : chunk.type ≠ ascii "IEND") :
    imageEnd (front ++ (chunk.bytes ++ back)) front.length =
      imageEnd (front ++ (chunk.bytes ++ back)) (front ++ chunk.bytes).length := by
  obtain ⟨hTotal, hEnd⟩ := header_chunk front back chunk
  have hLength := chunk.bytes_length
  conv_lhs => rw [imageEnd, hTotal, hEnd, beq_false_of_ne h]
  simp only [List.length_append, Bool.false_eq_true, if_false]
  rw [if_neg (by omega), if_neg (by omega)]

/-- The walk over chunks ends behind the first IEND. -/
theorem imageEnd_chunks (chunks : List Chunk) (last : Chunk) (front back : Bytes)
    (hChunks : ∀ chunk ∈ chunks, chunk.type ≠ ascii "IEND") (hLast : last.type = ascii "IEND") :
    imageEnd (front ++ (chunks.flatMap Chunk.bytes ++ last.bytes ++ back)) front.length =
      some (front ++ (chunks.flatMap Chunk.bytes ++ last.bytes)).length := by
  induction chunks generalizing front with
  | nil => exact imageEnd_last front back last hLast
  | cons chunk chunks ih =>
    have hRest := ih (front ++ chunk.bytes) fun other hOther => hChunks other (List.mem_cons_of_mem chunk hOther)
    rw [List.flatMap_cons, List.append_assoc chunk.bytes, List.append_assoc chunk.bytes,
      imageEnd_chunk front _ chunk (hChunks chunk List.mem_cons_self)]
    rw [← List.append_assoc, hRest, List.append_assoc]

theorem drop_chunk (buffer : Bytes) (offset size : Nat) :
    buffer.drop offset =
      (buffer.drop offset).take 4 ++ (buffer.drop (offset + 4)).take 4 ++
          (buffer.drop (offset + 8)).take size ++ (buffer.drop (offset + 8 + size)).take 4 ++
        buffer.drop (offset + (8 + size + 4)) := by
  have hPiece : ∀ place count,
      buffer.drop place = (buffer.drop place).take count ++ buffer.drop (place + count) :=
    fun place count => by rw [← List.drop_drop, List.take_append_drop]
  have hBehind : offset + (8 + size + 4) = offset + 8 + size + 4 := by omega
  rw [List.append_assoc, List.append_assoc, List.append_assoc, hBehind, ← hPiece, ← hPiece,
    ← hPiece (offset + 4) 4, ← hPiece]

/-- A chunk that is all there begins the rest of the buffer. -/
theorem exists_chunk (h : offset + chunkTotal buffer offset ≤ buffer.length) :
    ∃ chunk : Chunk, buffer.drop offset = chunk.bytes ++ buffer.drop (offset + chunkTotal buffer offset) ∧
      isEnd buffer offset = (chunk.type == ascii "IEND") := by
  rw [chunkTotal] at h ⊢
  have hRead : (readBe32 (buffer.drop offset)).toNat = beNat ((buffer.drop offset).take 4) := by
    apply readBe32_toNat
    rw [List.length_drop]
    omega
  rw [hRead] at h ⊢
  have hData : ((buffer.drop (offset + 8)).take (beNat ((buffer.drop offset).take 4))).length =
      beNat ((buffer.drop offset).take 4) := by
    rw [List.length_take, List.length_drop]
    omega
  refine ⟨⟨(buffer.drop offset).take 4, (buffer.drop (offset + 4)).take 4,
    (buffer.drop (offset + 8)).take (beNat ((buffer.drop offset).take 4)),
    (buffer.drop (offset + 8 + beNat ((buffer.drop offset).take 4))).take 4, ?_, ?_, ?_, hData.symm⟩, ?_, rfl⟩
  · rw [List.length_take, List.length_drop]
    omega
  · rw [List.length_take, List.length_drop]
    omega
  · rw [List.length_take, List.length_drop]
    omega
  · exact drop_chunk buffer offset _

/-- What the walk goes over are chunks, of which exactly the last is an IEND. -/
theorem chunks_of_imageEnd (h : imageEnd buffer offset = some stop) :
    ∃ (chunks : List Chunk) (last : Chunk), (∀ chunk ∈ chunks, chunk.type ≠ ascii "IEND") ∧
      last.type = ascii "IEND" ∧
      buffer.drop offset = chunks.flatMap Chunk.bytes ++ last.bytes ++ buffer.drop stop := by
  induction offset using imageEnd.induct buffer with
  | case1 offset hShort =>
    rw [imageEnd, if_pos hShort] at h
    cases h
  | case2 offset hHeader hShort =>
    rw [imageEnd, if_neg hHeader, if_pos hShort] at h
    cases h
  | case3 offset hHeader hChunk hEnd =>
    rw [imageEnd, if_neg hHeader, if_neg hChunk, if_pos hEnd] at h
    cases h
    obtain ⟨last, hLast, hType⟩ := exists_chunk (Nat.le_of_not_lt hChunk)
    exact ⟨[], last, List.forall_mem_nil _, beq_iff_eq.mp (hType.symm.trans hEnd), hLast⟩
  | case4 offset hHeader hChunk hEnd ih =>
    rw [imageEnd, if_neg hHeader, if_neg hChunk, if_neg hEnd] at h
    obtain ⟨chunk, hFirst, hType⟩ := exists_chunk (Nat.le_of_not_lt hChunk)
    obtain ⟨chunks, last, hChunks, hLast, hRest⟩ := ih h
    refine ⟨chunk :: chunks, last, ?_, hLast, ?_⟩
    · rw [List.forall_mem_cons]
      refine ⟨?_, hChunks⟩
      intro hSame
      rw [hSame, beq_self_eq_true] at hType
      exact hEnd hType
    · rw [hFirst, hRest, List.flatMap_cons]
      simp only [List.append_assoc]

end Walk

end GrpcAsr.Media
