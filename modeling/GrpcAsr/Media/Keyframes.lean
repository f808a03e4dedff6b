import GrpcAsr.Library.Splitting
import GrpcAsr.Media.PngChunks

/-!
# Keyframes of any reads

A still is the PNG signature and chunks, of which the first is an IHDR and exactly the last an
IEND. More bytes behind a still do not change where it ends, so the stills that go to the sink
do not depend on how the pipe cuts its reads.
-/

namespace GrpcAsr.Media

set_option autoImplicit false

open Splitting (Front Splitter drain feed)

/-- One image: a header chunk, chunks that do not end it and the one that does. -/
structure Png where
  header : Chunk
  middle : List Chunk
  last : Chunk
  headerType : header.type = ascii "IHDR"
  middleType : ∀ chunk ∈ middle, chunk.type ≠ ascii "IEND"
  lastType : last.type = ascii "IEND"

namespace Png

variable (png : Png)

def bytes : Bytes := kSignature ++ ((png.header :: png.middle).flatMap Chunk.bytes ++ png.last.bytes)

def width : Nat := beNat (png.header.data.take 4)

def height : Nat := beNat ((png.header.data.drop 4).take 4)

end Png

/-- What the front of the buffer is to `emitComplete`. -/
def stillFront (buffer : Bytes) : Front DemuxError :=
  if buffer.length < 8 then .more
  else if !kSignature.isPrefixOf buffer then
    .broken (.decode (ascii "keyframe stream lost PNG framing"))
  else
    match imageEnd buffer 8 with
    | none => .more
    | some offset =>
      match pngDimensions (buffer.take offset) with
      | .error error => .broken error
      | .ok _ => .item offset

theorem stillFront_short {buffer : Bytes} (h : buffer.length < 8) : stillFront buffer = .more := by
  rw [stillFront, if_pos h]

theorem stillFront_lost {buffer : Bytes} (hLong : ¬ buffer.length < 8)
    (h : kSignature.isPrefixOf buffer = false) :
    stillFront buffer = .broken (.decode (ascii "keyframe stream lost PNG framing")) := by
  rw [stillFront, if_neg hLong, h]
  rfl

theorem stillFront_framed {buffer : Bytes} (hLong : ¬ buffer.length < 8)
    (h : kSignature.isPrefixOf buffer = true) :
    stillFront buffer =
      match imageEnd buffer 8 with
      | none => .more
      | some offset =>
        match pngDimensions (buffer.take offset) with
        | .error error => .broken error
        | .ok _ => .item offset := by
  rw [stillFront, if_neg hLong, h]
  rfl

/-- A front that is a still: framed, with an end and dimensions. -/
theorem stillFront_item {buffer : Bytes} {size : Nat} (h : stillFront buffer = .item size) :
    kSignature <+: buffer ∧ imageEnd buffer 8 = some size ∧
      ∃ dimensions, pngDimensions (buffer.take size) = .ok dimensions := by
  by_cases hLong : buffer.length < 8
  · rw [stillFront_short hLong] at h
    cases h
  · cases hFramed : kSignature.isPrefixOf buffer with
    | false =>
      rw [stillFront_lost hLong hFramed] at h
      cases h
    | true =>
      rw [stillFront_framed hLong hFramed] at h
      cases hEnd : imageEnd buffer 8 with
      | none =>
        rw [hEnd] at h
        cases h
      | some offset =>
        rw [hEnd] at h
        cases hDimensions : pngDimensions (buffer.take offset) with
        | error error =>
          simp only [hDimensions] at h
          cases h
        | ok dimensions =>
          simp only [hDimensions] at h
          cases h
          exact ⟨List.isPrefixOf_iff_prefix.mp hFramed, rfl, dimensions, hDimensions⟩

theorem stillFront_append {buffer : Bytes} (later : Bytes) (h : stillFront buffer ≠ .more) :
    stillFront (buffer ++ later) = stillFront buffer := by
  by_cases hLong : buffer.length < 8
  · exact absurd (stillFront_short hLong) h
  · have hLonger : ¬ (buffer ++ later).length < 8 := by
      rw [List.length_append]
      omega
    have hSignature : kSignature.isPrefixOf (buffer ++ later) = kSignature.isPrefixOf buffer := by
      rw [Bool.eq_iff_iff, List.isPrefixOf_iff_prefix, List.isPrefixOf_iff_prefix]
      constructor
      · intro hPrefix
        exact List.prefix_of_prefix_length_le hPrefix (List.prefix_append _ _) (Nat.le_of_not_lt hLong)
      · exact fun hPrefix => hPrefix.trans (List.prefix_append _ _)
    cases hFramed : kSignature.isPrefixOf buffer with
    | false => rw [stillFront_lost hLong hFramed, stillFront_lost hLonger (hSignature.trans hFramed)]
    | true =>
      rw [stillFront_framed hLong hFramed] at h ⊢
      rw [stillFront_framed hLonger (hSignature.trans hFramed)]
      cases hEnd : imageEnd buffer 8 with
      | none =>
        rw [hEnd] at h
        exact absurd rfl h
      | some offset =>
        rw [imageEnd_append later hEnd]
        dsimp only
        rw [List.take_append_of_le_length (imageEnd_bounds hEnd).2]

def stills : Splitter UInt8 DemuxError where
  front := stillFront
  size_pos h := by
    have hBounds := imageEnd_bounds (stillFront_item h).2.1
    omega
  size_le h := (imageEnd_bounds (stillFront_item h).2.1).2
  stable later h := stillFront_append later h

theorem kSignature_length : kSignature.length = 8 := rfl

/-- Behind the signature stand the length and the type of the first chunk, then its data. -/
theorem header_fields (chunk : Chunk) (back : Bytes) :
    ((kSignature ++ (chunk.bytes ++ back)).drop 12).take 4 = chunk.type ∧
      (kSignature ++ (chunk.bytes ++ back)).drop 16 = chunk.data ++ (chunk.crc ++ back) := by
  have hSplit : kSignature ++ (chunk.bytes ++ back) =
      kSignature ++ chunk.length ++ (chunk.type ++ (chunk.data ++ (chunk.crc ++ back))) := by
    rw [Chunk.bytes]
    simp
  have hTwelve : (kSignature ++ chunk.length).length = 12 := by
    rw [List.length_append, chunk.lengthBytes, kSignature_length]
  have hDrop : (kSignature ++ (chunk.bytes ++ back)).drop 12 =
      chunk.type ++ (chunk.data ++ (chunk.crc ++ back)) := by
    rw [hSplit]
    exact List.drop_left' hTwelve
  constructor
  · rw [hDrop]
    exact List.take_left' chunk.typeBytes
  · have hSixteen : (kSignature ++ (chunk.bytes ++ back)).drop 16 =
        ((kSignature ++ (chunk.bytes ++ back)).drop 12).drop 4 := by rw [List.drop_drop]
    rw [hSixteen, hDrop]
    exact List.drop_left' chunk.typeBytes

namespace Png

variable (png : Png)

theorem bytes_eq : png.bytes =
    kSignature ++ (png.header.bytes ++ (png.middle.flatMap Chunk.bytes ++ png.last.bytes)) := by
  rw [bytes, List.flatMap_cons, List.append_assoc]

theorem bytes_length : 32 ≤ png.bytes.length := by
  rw [bytes_eq, List.length_append, List.length_append, List.length_append, Chunk.bytes_length,
    Chunk.bytes_length, kSignature_length]
  omega

theorem imageEnd_bytes : imageEnd png.bytes 8 = some png.bytes.length := by
  have hChunks : ∀ chunk ∈ png.header :: png.middle, chunk.type ≠ ascii "IEND" := by
    rw [List.forall_mem_cons, png.headerType]
    exact ⟨by decide, png.middleType⟩
  have hEnd := imageEnd_chunks (png.header :: png.middle) png.last kSignature [] hChunks png.lastType
  rw [List.append_nil] at hEnd
  exact hEnd

theorem pngDimensions_bytes :
    pngDimensions png.bytes = .ok (readBe32 (png.bytes.drop 16), readBe32 (png.bytes.drop 20)) := by
  have hLength := png.bytes_length
  have hType : (png.bytes.drop 12).take 4 = ascii "IHDR" := by
    rw [bytes_eq, (header_fields png.header _).1, png.headerType]
  rw [pngDimensions, hType]
  simp only [bne_self_eq_false, Bool.or_false, decide_eq_true_eq]
  rw [if_neg (by omega)]

/-- The bytes of a still are one item of the splitter. -/
theorem front_bytes : stillFront png.bytes = .item png.bytes.length := by
  have hLong : ¬ png.bytes.length < 8 := by
    have hLength := png.bytes_length
    omega
  rw [stillFront_framed hLong (List.isPrefixOf_iff_prefix.mpr (List.prefix_append _ _)), imageEnd_bytes]
  dsimp only
  rw [List.take_length, pngDimensions_bytes]

/-- A header with its fields gives the dimensions of the image. -/
theorem dimensions (h : 8 ≤ png.header.data.length) :
    readBe32 (png.bytes.drop 16) = UInt32.ofNat png.width ∧
      readBe32 (png.bytes.drop 20) = UInt32.ofNat png.height := by
  have hData : png.bytes.drop 16 = png.header.data ++
      (png.header.crc ++ (png.middle.flatMap Chunk.bytes ++ png.last.bytes)) := by
    rw [bytes_eq, (header_fields png.header _).2]
  have hMore : png.bytes.drop 20 = png.header.data.drop 4 ++
      (png.header.crc ++ (png.middle.flatMap Chunk.bytes ++ png.last.bytes)) := by
    have hFour : png.bytes.drop 20 = (png.bytes.drop 16).drop 4 := by rw [List.drop_drop]
    rw [hFour, hData]
    exact List.drop_append_of_le_length (by omega)
  have hWidth : (readBe32 (png.bytes.drop 16)).toNat = png.width := by
    rw [width, readBe32_toNat, hData, List.take_append_of_le_length (by omega)]
    rw [hData, List.length_append]
    omega
  have hHeight : (readBe32 (png.bytes.drop 20)).toNat = png.height := by
    have hRest : (png.header.data.drop 4).length = png.header.data.length - 4 := List.length_drop
    rw [height, readBe32_toNat, hMore, List.take_append_of_le_length (by omega)]
    rw [hMore, List.length_append]
    omega
  rw [← hWidth, ← hHeight, UInt32.ofNat_toNat, UInt32.ofNat_toNat]
  exact ⟨rfl, rfl⟩

end Png

/-- What is taken off as a still is one. -/
theorem png_of_front {item behind : Bytes} (h : stillFront (item ++ behind) = .item item.length) :
    ∃ png : Png, item = png.bytes := by
  obtain ⟨hSignature, hEnd, dimensions, hDimensions⟩ := stillFront_item h
  rw [List.take_left] at hDimensions
  obtain ⟨chunks, last, hChunks, hLast, hDrop⟩ := chunks_of_imageEnd hEnd
  obtain ⟨rest, hRest⟩ := hSignature
  rw [← hRest, List.drop_left' kSignature_length, hRest, List.drop_left] at hDrop
  have hItem : item = kSignature ++ (chunks.flatMap Chunk.bytes ++ last.bytes) := by
    have hBoth : item ++ behind = kSignature ++ (chunks.flatMap Chunk.bytes ++ last.bytes) ++ behind := by
      rw [← hRest, hDrop]
      simp
    exact List.append_cancel_right hBoth
  have hType : (item.drop 12).take 4 = ascii "IHDR" := by
    rw [pngDimensions] at hDimensions
    split at hDimensions
    · cases hDimensions
    · rename_i hChecked
      have hBoth : 24 ≤ item.length ∧ (item.drop 12).take 4 = ascii "IHDR" := by simpa using hChecked
      exact hBoth.2
  cases chunks with
  | nil =>
    have hFirst := (header_fields last []).1
    rw [List.append_nil] at hFirst
    rw [hItem, List.flatMap_nil, List.nil_append, hFirst, hLast] at hType
    cases hType
  | cons header middle =>
    rw [List.flatMap_cons, List.append_assoc] at hItem
    rw [hItem, (header_fields header _).1] at hType
    rw [List.forall_mem_cons] at hChunks
    refine ⟨⟨header, middle, last, hType, hChunks.2, hLast⟩, ?_⟩
    rw [hItem, Png.bytes_eq]

section Runs

variable (interval : UInt32)

/-- The calls of the sink for stills in order, from the index of the first. -/
def stillsFrom (index : UInt64) : List Bytes → List Still
  | [] => []
  | png :: pngs =>
    ⟨index * interval.toUInt64 * 1000, readBe32 (png.drop 16), readBe32 (png.drop 20), png⟩ ::
      stillsFrom (index + 1) pngs

theorem index_succ (index : UInt64) (count : Nat) :
    index + 1 + UInt64.ofNat count = index + UInt64.ofNat (count + 1) := by
  rw [UInt64.ofNat_add, UInt64.add_assoc, UInt64.add_comm 1]
  rfl

theorem stillsFrom_append (index : UInt64) (front back : List Bytes) :
    stillsFrom interval index (front ++ back) =
      stillsFrom interval index front ++ stillsFrom interval (index + UInt64.ofNat front.length) back := by
  induction front generalizing index with
  | nil => simp [stillsFrom]
  | cons png front ih =>
    rw [List.cons_append, stillsFrom, ih, index_succ]
    rfl

theorem stillsFrom_png (index : UInt64) (pngs : List Bytes) :
    (stillsFrom interval index pngs).map Still.png = pngs := by
  induction pngs generalizing index with
  | nil => rfl
  | cons png pngs ih => rw [stillsFrom, List.map_cons, ih]

abbrev accepting : List Still → Still → Bool := fun _ _ => true

section Emit

variable {buffer : Bytes} {index : UInt64} {emitted : List Still}

theorem emitComplete_framed (hLong : ¬ buffer.length < 8) (h : kSignature.isPrefixOf buffer = true) :
    emitComplete interval accepting ⟨buffer, index, emitted⟩ =
      match imageEnd buffer 8 with
      | none => (.ok true, ⟨buffer, index, emitted⟩)
      | some offset =>
        match pngDimensions (buffer.take offset) with
        | .error error => (.error error, ⟨buffer.drop offset, index, emitted⟩)
        | .ok (width, height) =>
          emitComplete interval accepting ⟨buffer.drop offset, index + 1,
            emitted ++ [⟨index * interval.toUInt64 * 1000, width, height, buffer.take offset⟩]⟩ := by
  rw [emitComplete]
  simp only [if_neg hLong, h, Bool.not_true, Bool.false_eq_true, if_false, if_true]
  cases hEnd : imageEnd buffer 8 with
  | none => rfl
  | some offset => rfl

theorem emitComplete_more (h : stillFront buffer = .more) :
    emitComplete interval accepting ⟨buffer, index, emitted⟩ = (.ok true, ⟨buffer, index, emitted⟩) := by
  by_cases hLong : buffer.length < 8
  · rw [emitComplete, if_pos hLong]
  · cases hFramed : kSignature.isPrefixOf buffer with
    | false =>
      rw [stillFront_lost hLong hFramed] at h
      cases h
    | true =>
      rw [stillFront_framed hLong hFramed] at h
      rw [emitComplete_framed interval hLong hFramed]
      cases hEnd : imageEnd buffer 8 with
      | none => rfl
      | some offset =>
        simp only [hEnd] at h
        cases hDimensions : pngDimensions (buffer.take offset) with
        | error error =>
          rw [hDimensions] at h
          cases h
        | ok dimensions =>
          rw [hDimensions] at h
          cases h

theorem emitComplete_broken {error : DemuxError} (h : stillFront buffer = .broken error) :
    ∃ rest, emitComplete interval accepting ⟨buffer, index, emitted⟩ =
      (.error error, ⟨rest, index, emitted⟩) := by
  by_cases hLong : buffer.length < 8
  · rw [stillFront_short hLong] at h
    cases h
  · cases hFramed : kSignature.isPrefixOf buffer with
    | false =>
      rw [stillFront_lost hLong hFramed] at h
      cases h
      refine ⟨buffer, ?_⟩
      rw [emitComplete, if_neg hLong, hFramed]
      rfl
    | true =>
      rw [stillFront_framed hLong hFramed] at h
      rw [emitComplete_framed interval hLong hFramed]
      cases hEnd : imageEnd buffer 8 with
      | none =>
        rw [hEnd] at h
        cases h
      | some offset =>
        simp only [hEnd] at h
        cases hDimensions : pngDimensions (buffer.take offset) with
        | error other =>
          rw [hDimensions] at h
          cases h
          exact ⟨buffer.drop offset, by simp only [hDimensions]⟩
        | ok dimensions =>
          rw [hDimensions] at h
          cases h

theorem emitComplete_item {size : Nat} (h : stillFront buffer = .item size) :
    emitComplete interval accepting ⟨buffer, index, emitted⟩ =
      emitComplete interval accepting
        ⟨buffer.drop size, index + 1, emitted ++ stillsFrom interval index [buffer.take size]⟩ := by
  obtain ⟨hFramed, hEnd, ⟨width, height⟩, hDimensions⟩ := stillFront_item h
  have hLong : ¬ buffer.length < 8 := by
    have hLength := hFramed.length_le
    rw [kSignature_length] at hLength
    omega
  have hRead : width = readBe32 ((buffer.take size).drop 16) ∧
      height = readBe32 ((buffer.take size).drop 20) := by
    rw [pngDimensions] at hDimensions
    split at hDimensions
    · cases hDimensions
    · cases hDimensions
      exact ⟨rfl, rfl⟩
  rw [emitComplete_framed interval hLong (List.isPrefixOf_iff_prefix.mpr hFramed), hEnd]
  dsimp only
  rw [hDimensions, hRead.1, hRead.2]
  rfl

end Emit

/-- Draining the buffer for an accepting sink. -/
theorem emitComplete_drain (buffer : Bytes) (index : UInt64) (emitted : List Still) :
    (∀ error, (drain stills buffer).2 = .error error →
      ∃ rest last, emitComplete interval accepting ⟨buffer, index, emitted⟩ =
        (.error error, ⟨rest, last, emitted ++ stillsFrom interval index (drain stills buffer).1⟩)) ∧
      ∀ rest, (drain stills buffer).2 = .ok rest →
        emitComplete interval accepting ⟨buffer, index, emitted⟩ =
          (.ok true, ⟨rest, index + UInt64.ofNat (drain stills buffer).1.length,
            emitted ++ stillsFrom interval index (drain stills buffer).1⟩) := by
  induction buffer using Splitting.drain_induction stills generalizing index emitted with
  | more buffer hFront =>
    rw [Splitting.drain_more hFront]
    refine ⟨nofun, ?_⟩
    rintro rest ⟨⟩
    rw [emitComplete_more interval hFront]
    simp [stillsFrom]
  | broken buffer error hFront =>
    rw [Splitting.drain_broken hFront]
    refine ⟨?_, nofun⟩
    rintro _ ⟨⟩
    obtain ⟨rest, hBroken⟩ := @emitComplete_broken interval buffer index emitted error hFront
    exact ⟨rest, index, by rw [hBroken, stillsFrom, List.append_nil]⟩
  | item buffer size hFront ih =>
    obtain ⟨hError, hOk⟩ := ih (index + 1) (emitted ++ stillsFrom interval index [buffer.take size])
    have hStills : ∀ items, emitted ++ stillsFrom interval index [buffer.take size] ++
        stillsFrom interval (index + 1) items = emitted ++ stillsFrom interval index (buffer.take size :: items) :=
      fun items => List.append_assoc _ _ _
    rw [Splitting.drain_item hFront, emitComplete_item interval hFront]
    constructor
    · intro error hDrained
      obtain ⟨rest, last, hResult⟩ := hError error hDrained
      exact ⟨rest, last, by rw [hResult, hStills]⟩
    · intro rest hDrained
      rw [hOk rest hDrained, hStills, index_succ]
      rfl

/-- After a read whose images are all delivered, the next is made. -/
theorem readKeyframes_more {read : Bytes} (reads : List Bytes) (hRead : read ≠ [])
    {buffer : Bytes} {index : UInt64} {emitted : List Still} {next : StillStream}
    (h : emitComplete interval accepting ⟨buffer ++ read, index, emitted⟩ = (.ok true, next)) :
    readKeyframes interval accepting (read :: reads) ⟨buffer, index, emitted⟩ =
      readKeyframes interval accepting reads next := by
  rw [readKeyframes, List.isEmpty_eq_false_iff.mpr hRead, h]
  rfl

theorem readKeyframes_error {read : Bytes} (reads : List Bytes) (hRead : read ≠ [])
    {buffer : Bytes} {index : UInt64} {emitted : List Still} {error : DemuxError} {last : StillStream}
    (h : emitComplete interval accepting ⟨buffer ++ read, index, emitted⟩ = (.error error, last)) :
    readKeyframes interval accepting (read :: reads) ⟨buffer, index, emitted⟩ = (.error error, last) := by
  rw [readKeyframes, List.isEmpty_eq_false_iff.mpr hRead, h]
  rfl

/-- The reads of the pipe feed the splitter. -/
theorem readKeyframes_feed {reads : List Bytes} (hReads : ∀ read ∈ reads, read ≠ []) (buffer : Bytes)
    (index : UInt64) (emitted : List Still) :
    (∀ error, (feed stills buffer reads).2 = .error error →
      ∃ rest last, readKeyframes interval accepting reads ⟨buffer, index, emitted⟩ =
        (.error error, ⟨rest, last, emitted ++ stillsFrom interval index (feed stills buffer reads).1⟩)) ∧
      ∀ rest, (feed stills buffer reads).2 = .ok rest →
        ∃ last, readKeyframes interval accepting reads ⟨buffer, index, emitted⟩ =
          (.ok true, ⟨rest, last, emitted ++ stillsFrom interval index (feed stills buffer reads).1⟩) := by
  induction reads generalizing buffer index emitted with
  | nil =>
    constructor
    · rintro _ ⟨⟩
    · rintro rest ⟨⟩
      exact ⟨index, by rw [readKeyframes, feed, stillsFrom, List.append_nil]⟩
  | cons read reads ih =>
    obtain ⟨hRead, hRest⟩ := List.forall_mem_cons.mp hReads
    obtain ⟨hError, hOk⟩ := emitComplete_drain interval (buffer ++ read) index emitted
    rw [feed]
    cases hDrain : drain stills (buffer ++ read) with
    | mk items result =>
      rw [hDrain] at hError hOk
      cases result with
      | error error =>
        obtain ⟨rest, last, hResult⟩ := hError error rfl
        constructor
        · rintro _ ⟨⟩
          exact ⟨rest, last, readKeyframes_error interval reads hRead hResult⟩
        · rintro _ ⟨⟩
      | ok rest =>
        rw [readKeyframes_more interval reads hRead (hOk rest rfl)]
        dsimp only
        rw [stillsFrom_append, ← List.append_assoc]
        exact ih hRest rest _ _

/-- With an accepting sink and a child that exits well, the stills are those of the whole stream. -/
theorem extractKeyframes_drain {reads : List Bytes} (hReads : ∀ read ∈ reads, read ≠ [])
    (ffmpeg stderrTail : Bytes) :
    extractKeyframes ffmpeg interval accepting reads 0 stderrTail =
      (match (drain stills reads.flatten).2 with
        | .error error => .error error
        | .ok rest =>
          if !rest.isEmpty then .error (.decode (ascii "keyframe stream ended mid-frame")) else .ok (),
        stillsFrom interval 0 (drain stills reads.flatten).1) := by
  have hFeed : feed stills [] reads = drain stills reads.flatten :=
    Splitting.feed_eq_drain stills reads rfl
  obtain ⟨hError, hOk⟩ := readKeyframes_feed interval hReads [] 0 []
  rw [hFeed] at hError hOk
  rw [extractKeyframes]
  cases hDrain : (drain stills reads.flatten).2 with
  | error error =>
    obtain ⟨rest, last, hResult⟩ := hError error hDrain
    rw [hResult]
    rfl
  | ok rest =>
    obtain ⟨last, hResult⟩ := hOk rest hDrain
    rw [hResult]
    dsimp only
    rw [if_neg (by decide), if_neg (by decide)]
    split
    · rfl
    · rfl

/-- A child that failed, or that did not start, does not let a run return whose sink accepts all. -/
theorem extractKeyframes_exit {reads : List Bytes} (hReads : ∀ read ∈ reads, read ≠ [])
    {ffmpeg stderrTail : Bytes} {exitCode : Int} {emitted : List Still}
    (h : extractKeyframes ffmpeg interval accepting reads exitCode stderrTail = (.ok (), emitted)) :
    exitCode = 0 := by
  obtain ⟨hError, hOk⟩ := readKeyframes_feed interval hReads [] 0 []
  rw [extractKeyframes] at h
  by_contra hFailed
  cases hFed : (feed stills [] reads).2 with
  | error error =>
    obtain ⟨rest, last, hResult⟩ := hError error hFed
    rw [hResult] at h
    cases h
  | ok rest =>
    obtain ⟨last, hResult⟩ := hOk rest hFed
    rw [hResult] at h
    dsimp only at h
    by_cases hMissing : exitCode = kExecFailed
    · rw [if_pos hMissing] at h
      cases h
    · rw [if_neg hMissing, if_pos hFailed] at h
      cases h

theorem stillFront_decode {buffer : Bytes} {error : DemuxError} (h : stillFront buffer = .broken error) :
    ∃ message, error = .decode message := by
  by_cases hLong : buffer.length < 8
  · rw [stillFront_short hLong] at h
    cases h
  · cases hFramed : kSignature.isPrefixOf buffer with
    | false =>
      rw [stillFront_lost hLong hFramed] at h
      cases h
      exact ⟨_, rfl⟩
    | true =>
      rw [stillFront_framed hLong hFramed] at h
      cases hEnd : imageEnd buffer 8 with
      | none =>
        rw [hEnd] at h
        cases h
      | some offset =>
        simp only [hEnd, pngDimensions] at h
        split at h
        · rename_i hDimensions
          cases h
          split at hDimensions
          · cases hDimensions
            exact ⟨_, rfl⟩
          · cases hDimensions
        · cases h

theorem drain_decode (buffer : Bytes) {error : DemuxError} (h : (drain stills buffer).2 = .error error) :
    ∃ message, error = .decode message := by
  induction buffer using Splitting.drain_induction stills with
  | more buffer hFront =>
    rw [Splitting.drain_more hFront] at h
    cases h
  | broken buffer other hFront =>
    rw [Splitting.drain_broken hFront] at h
    cases h
    exact stillFront_decode hFront
  | item buffer size hFront ih =>
    rw [Splitting.drain_item hFront] at h
    exact ih h

theorem stillsFrom_pngs (pngs : List Png) (hHeaders : ∀ png ∈ pngs, 8 ≤ png.header.data.length)
    (start : Nat) :
    stillsFrom interval (UInt64.ofNat start) (pngs.map Png.bytes) =
      pngs.mapIdx fun k png =>
        ⟨UInt64.ofNat (start + k) * interval.toUInt64 * 1000, UInt32.ofNat png.width,
          UInt32.ofNat png.height, png.bytes⟩ := by
  induction pngs generalizing start with
  | nil => rfl
  | cons png pngs ih =>
    obtain ⟨hHeader, hRest⟩ := List.forall_mem_cons.mp hHeaders
    obtain ⟨hWidth, hHeight⟩ := png.dimensions hHeader
    have hNext : UInt64.ofNat start + 1 = UInt64.ofNat (start + 1) := (UInt64.ofNat_add start 1).symm
    have hOrder : ∀ k, start + 1 + k = start + (k + 1) := fun k => by omega
    rw [List.map_cons, stillsFrom, hNext, ih hRest, List.mapIdx_cons, hWidth, hHeight]
    simp only [hOrder]
    rfl

theorem drain_pngs (buffer : Bytes) : ∃ pngs : List Png, (drain stills buffer).1 = pngs.map Png.bytes := by
  have hItems := Splitting.drain_items stills buffer
  generalize (drain stills buffer).1 = items at hItems
  induction items with
  | nil => exact ⟨[], rfl⟩
  | cons item items ih =>
    obtain ⟨⟨behind, hItem⟩, hRest⟩ := List.forall_mem_cons.mp hItems
    obtain ⟨png, rfl⟩ := png_of_front hItem
    obtain ⟨pngs, rfl⟩ := ih hRest
    exact ⟨png :: pngs, rfl⟩

theorem keyframes_exact (ffmpeg stderrTail : Bytes) {reads : List Bytes}
    (hReads : ∀ read ∈ reads, read ≠ []) :
    (∀ pngs : List Png, (∀ png ∈ pngs, 8 ≤ png.header.data.length) →
      reads.flatten = pngs.flatMap Png.bytes →
      extractKeyframes ffmpeg interval accepting reads 0 stderrTail =
        (.ok (), pngs.mapIdx fun k png =>
          ⟨UInt64.ofNat k * interval.toUInt64 * 1000, UInt32.ofNat png.width, UInt32.ofNat png.height,
            png.bytes⟩)) ∧
    (∀ exitCode emitted,
      extractKeyframes ffmpeg interval accepting reads exitCode stderrTail = (.ok (), emitted) →
        reads.flatten = (emitted.map Still.png).flatten) ∧
    ((extractKeyframes ffmpeg interval accepting reads 0 stderrTail).1 = .ok () ∧
        (∃ pngs : List Png, reads.flatten = pngs.flatMap Png.bytes) ∨
      ∃ message, (extractKeyframes ffmpeg interval accepting reads 0 stderrTail).1 =
        .error (.decode message)) := by
  have hDrained := extractKeyframes_drain interval hReads ffmpeg stderrTail
  refine ⟨?_, ?_, ?_⟩
  · intro pngs hHeaders hStream
    rw [hDrained]
    have hWhole : drain stills (pngs.map Png.bytes).flatten = (pngs.map Png.bytes, .ok []) := by
      apply Splitting.drain_whole stills _ rfl
      rw [List.forall_mem_map]
      exact fun png _ => png.front_bytes
    rw [hStream, List.flatMap_def, hWhole]
    have hStills := stillsFrom_pngs interval pngs hHeaders 0
    simp only [Nat.zero_add] at hStills
    exact congrArg (Prod.mk (Except.ok ())) hStills
  · intro exitCode emitted hResult
    obtain rfl := extractKeyframes_exit interval hReads hResult
    rw [hDrained] at hResult
    obtain ⟨hOk, rfl⟩ := Prod.mk.inj hResult
    rw [stillsFrom_png]
    cases hDrain : (drain stills reads.flatten).2 with
    | error error =>
      rw [hDrain] at hOk
      cases hOk
    | ok rest =>
      have hFlatten := Splitting.drain_flatten stills reads.flatten hDrain
      rw [hDrain] at hOk
      cases rest with
      | nil =>
        rw [List.append_nil] at hFlatten
        exact hFlatten.symm
      | cons c rest => cases hOk
  · rw [hDrained]
    cases hDrain : (drain stills reads.flatten).2 with
    | error error =>
      obtain ⟨message, rfl⟩ := drain_decode reads.flatten hDrain
      exact .inr ⟨message, rfl⟩
    | ok rest =>
      have hFlatten := Splitting.drain_flatten stills reads.flatten hDrain
      cases rest with
      | nil =>
        obtain ⟨pngs, hPngs⟩ := drain_pngs reads.flatten
        rw [hPngs, List.append_nil] at hFlatten
        exact .inl ⟨rfl, pngs, hFlatten.symm⟩
      | cons c rest => exact .inr ⟨_, rfl⟩

end Runs

/-- An image of one by two pixels with no data. -/
def tinyPng : Png where
  header := ⟨[0, 0, 0, 8], ascii "IHDR", [0, 0, 0, 1, 0, 0, 0, 2], [0, 0, 0, 0], rfl, rfl, rfl, rfl⟩
  middle := []
  last := ⟨[0, 0, 0, 0], ascii "IEND", [], [0, 0, 0, 0], rfl, rfl, rfl, rfl⟩
  headerType := rfl
  middleType := List.forall_mem_nil _
  lastType := rfl

theorem keyframes_exact_tiny :
    extractKeyframes [] 5 accepting [tinyPng.bytes ++ tinyPng.bytes.take 3, tinyPng.bytes.drop 3] 0 [] =
      (.ok (), [⟨0, 1, 2, tinyPng.bytes⟩, ⟨5000, 1, 2, tinyPng.bytes⟩]) :=
  (keyframes_exact 5 [] [] (by decide)).1 [tinyPng, tinyPng] (by decide) (by decide)

end GrpcAsr.Media
