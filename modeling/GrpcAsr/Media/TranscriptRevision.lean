import GrpcAsr.Library.Revisions
import GrpcAsr.Media.Messages

/-!
# Transcript revisions as a revision log

The check a new revision passes against the transcripts held in a snapshot, and the
replacement of the held revision.
-/

namespace GrpcAsr.Media

set_option autoImplicit false

def revisions : Revisions.Reading TranscriptSegment Bytes :=
  ⟨TranscriptSegment.segmentId, TranscriptSegment.revision, TranscriptSegment.final⟩

def revisionValid (transcripts : List TranscriptSegment) (t : TranscriptSegment) : Bool :=
  transcripts.all fun prior => prior.segmentId != t.segmentId ||
    (!prior.final && t.revision == prior.revision + 1 && t.trackId == prior.trackId)

def supersede (transcripts : List TranscriptSegment) (t : TranscriptSegment) :
    List TranscriptSegment :=
  (transcripts.eraseP fun prior => prior.segmentId == t.segmentId) ++ [t]

/-- A revision that continues its log passes the check, whatever part of the latest
revisions is held and whatever other segments are. -/
theorem revisionValid_of_continues {log kept : List TranscriptSegment} {t : TranscriptSegment}
    (hKept : ∀ prior ∈ kept, prior.segmentId = t.segmentId → prior ∈ revisions.lastOfEach log)
    (hContinues : revisions.Continues log t)
    (hTrack : ∀ prior ∈ log, prior.trackId = t.trackId) : revisionValid kept t = true := by
  rw [revisionValid, List.all_eq_true]
  intro prior hPrior
  by_cases hSame : prior.segmentId = t.segmentId
  · have hLatest := revisions.latest_of_mem_lastOfEach (hKept prior hPrior hSame)
    obtain ⟨hOpen, hNext⟩ := hContinues prior (by rw [← hLatest]; exact congrArg _ hSame.symm)
    have hOld := hTrack prior (revisions.latest_mem hLatest).1
    simp only [revisions] at hOpen hNext
    simp [hOpen, hNext, hOld]
  · simp [hSame]

end GrpcAsr.Media
