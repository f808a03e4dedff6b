import GrpcAsr.Asr.Numbering
import GrpcAsr.Asr.CallContract

/-!
# The threads keep their contracts

The worker is in its working phase until `conclude`: the transcription keeps it there and
counts the finals, and every exception leaves it there too. The trailer is reached only
after a check of the stop token that came out negative. The upload loop appends the
client's chunks in order and requests the stop before it aborts; the keyframe thread
counts a still between two writes.
-/

namespace GrpcAsr.Asr

set_option autoImplicit false

open Interaction Routine
open Media (Bytes ascii Status StatusCode)

/-- The worker before it has asked anything about the Document. -/
structure WorkerGhost.Working (view : StillsView) (w : WorkerGhost) : Prop where
  stills : w.stills = view
  folding : w.folding = none
  complete : w.complete = none
  source : w.source = none
  frames : w.frames = none
  ended : w.ended = none
  exited : w.exited = false

/-- The worker has not reached the trailer. -/
def WorkerGhost.Short (w : WorkerGhost) : Prop := w.ended = none ∧ w.exited = false

theorem WorkerGhost.Working.short {view : StillsView} {w : WorkerGhost} (h : w.Working view) :
    w.Short := ⟨h.ended, h.exited⟩

/-- What a status of the worker promises. -/
def WorkerGhost.Ends (status : Status) (w : WorkerGhost) : Prop :=
  (status.isOk = true → w.ended = some true) ∧
    (status.code = .invalidArgument → w.polled = some false)

section Worker

variable {total : Bytes} {view : StillsView} {α : Type}

abbrev WorkerTriple (total : Bytes) (P : WorkerGhost → Prop) (task : Task α)
    (Q : α → WorkerGhost → Prop) (E : Thrown → WorkerGhost → Prop) : Prop :=
  Triple (workerContract total) (fun _ => P) task (fun a _ => Q a) (fun error _ => E error)

theorem ask_triple {request : Request} {P : WorkerGhost → Prop}
    {Q : request.Answer → WorkerGhost → Prop} {E : Thrown → WorkerGhost → Prop}
    (h : ∀ w, P w → workerPromise total request w Q) :
    WorkerTriple total P (ask request) Q E := .perform fun _ w => h w

theorem use_triple {tool : Tool} {P : WorkerGhost → Prop}
    (hCut : ∀ w cut, P w → P { w with cut := cut }) :
    WorkerTriple total P (Task.use tool) (fun _ => P) (fun _ => P) := by
  refine .bind (Q := fun _ _ => P) (ask_triple fun w hP answer => hCut w _ hP) fun answer => ?_
  cases answer with
  | ok result => exact .pure result fun _ _ hP => hP
  | error error => exact .throw error fun _ _ hP => hP

/-- A check of `gone` that comes out negative is remembered. -/
theorem gone_triple {P : WorkerGhost → Prop} (hShort : ∀ w, P w → w.Short)
    (hPolled : ∀ w polled, P w → P { w with polled := polled }) {E : Thrown → WorkerGhost → Prop} :
    WorkerTriple total P Task.gone
      (fun gone w => P w ∧ (gone = false → w.polled = some false)) E := by
  refine .bind (Q := fun _ _ => P) (ask_triple fun w hP answer => hP) fun aborted => ?_
  cases aborted with
  | true => exact .pure true fun _ _ hP => ⟨hP, nofun⟩
  | false =>
    refine ask_triple fun w hP => ⟨(hShort w hP).1, (hShort w hP).2, fun answer _ => ?_⟩
    exact ⟨hPolled w _ hP, fun hAnswer => congrArg some hAnswer⟩

/-- In its working phase, with a number of finals written. -/
def Counting (view : StillsView) (finals : List EngineSegment) (w : WorkerGhost) : Prop :=
  w.Working view ∧ w.finals = finals.length

/-- And no read has been cut short. -/
def Intact (view : StillsView) (finals : List EngineSegment) (w : WorkerGhost) : Prop :=
  Counting view finals w ∧ w.cut = false

theorem WorkerGhost.Working.cutting {w : WorkerGhost} (h : w.Working view) (cut : Bool) :
    { w with cut := cut }.Working view :=
  ⟨h.stills, h.folding, h.complete, h.source, h.frames, h.ended, h.exited⟩

theorem WorkerGhost.Working.polling {w : WorkerGhost} (h : w.Working view) (polled : Option Bool) :
    { w with polled := polled }.Working view :=
  ⟨h.stills, h.folding, h.complete, h.source, h.frames, h.ended, h.exited⟩

theorem WorkerGhost.Working.writing {w : WorkerGhost} (h : w.Working view) (finals : Nat) :
    { w with finals := finals }.Working view :=
  ⟨h.stills, h.folding, h.complete, h.source, h.frames, h.ended, h.exited⟩

/-- A write in the working phase. -/
theorem write_triple {response : TranscribeResponse} {P : WorkerGhost → Prop}
    {Q : Bool → WorkerGhost → Prop} {E : Thrown → WorkerGhost → Prop}
    (hWorker : response.byWorker = true) (hWorking : ∀ w, P w → w.Working view)
    (hIntact : response.isFinal = true → ∀ w, P w → w.cut = false)
    (hQ : ∀ w answer, P w →
      Q answer { w with finals := w.finals + if response.isFinal then 1 else 0 }) :
    WorkerTriple total P (ask (.write response)) Q E :=
  ask_triple fun w hP =>
    ⟨hWorker, fun hFinal => hIntact hFinal w hP, (hWorking w hP).ended, (hWorking w hP).source,
      fun answer => hQ w answer hP⟩

theorem work_triple {finals : List EngineSegment} (tool : Tool) :
    WorkerTriple total (Counting view finals) (Task.use tool) (fun _ => Counting view finals)
      (fun _ => WorkerGhost.Short) := by
  have hUse := @use_triple total tool (Counting view finals) fun _ cut hP =>
    ⟨hP.1.cutting cut, hP.2⟩
  refine hUse.except ?_
  intro error s w h
  exact h.1.short

theorem decode_triple {finals : List EngineSegment} (asked : Nat) :
    WorkerTriple total (Intact view finals) (Task.decode asked) (fun _ => Counting view finals)
      (fun _ => WorkerGhost.Short) :=
  .bind ((work_triple (.decode asked)).pre fun _ _ h => h.1) fun pcm =>
    .pure pcm.samples fun _ _ h => h

/-- The call's host tracks the finals, whichever source the PCM comes from. -/
theorem host_tracks (options : EngineOptions) {read : Nat → Task (List Sample)}
    (hRead : ∀ asked finals, WorkerTriple total (Intact view finals) (read asked)
      (fun _ => Counting view finals) (fun _ => WorkerGhost.Short)) :
    Tracks (workerContract total) (Task.host read) options (fun _ _ => WorkerGhost.Short)
      (fun finals _ => Counting view finals) (fun finals _ => Intact view finals) where
  weaken := fun h => h.1
  read := hRead
  stop finals := by
    refine ask_triple fun w hI answer hCut => ?_
    cases answer with
    | true => exact hI
    | false =>
      refine ⟨hI, ?_⟩
      cases hw : w.cut with
      | true => cases hCut hw
      | false => rfl
  poll finals := ask_triple fun w hJ answer _ => hJ
  whisper run buffer finals := ask_triple fun w hJ => ⟨hJ.2, fun answer => hJ⟩
  preview segment finals :=
    write_triple rfl (fun w hJ => hJ.1.1) (fun hFinal => nomatch hFinal) fun w answer hJ => hJ
  commit segment finals _ := by
    refine write_triple rfl (fun w hJ => hJ.1.1) (fun _ w hJ => hJ.2) fun w answer hJ => ?_
    refine ⟨⟨hJ.1.1.writing _, ?_⟩, hJ.2⟩
    rw [List.length_append, List.length_singleton, ← hJ.1.2]
    rfl
  throw error finals := .throw error fun _ _ hI => hI.1.short
  wait finals := fun _ _ _ => trivial

/-- What the transcription leaves: if it completes, it has counted the finals. -/
def Transcribed (view : StillsView) (result : EngineResult) (w : WorkerGhost) : Prop :=
  w.Working view ∧ (result.aborted = false → result.finalSegments = UInt32.ofNat w.finals)

theorem transcribeFrom_triple (config : Config) (options : TranscribeOptions) (rounds : Nat)
    {read : Nat → Task (List Sample)}
    (hRead : ∀ asked finals, WorkerTriple total (Intact view finals) (read asked)
      (fun _ => Counting view finals) (fun _ => WorkerGhost.Short)) :
    WorkerTriple total (Counting view []) (transcribeFrom config options rounds read)
      (Transcribed view) (fun _ => WorkerGhost.Short) := by
  refine ((host_tracks (engineOptions config options) hRead).run_triple rounds).post ?_
  rintro result _ w ⟨finals, hI, hCounts⟩
  refine ⟨hI.1, fun hAborted => ?_⟩
  rw [hI.2]
  exact (hCounts hAborted).1

/-- Before the trailer: the checks have been made, and the source has been named if there
is a Document. -/
structure WorkerGhost.Named (view : StillsView) (finals : Nat) (w : WorkerGhost) : Prop where
  stills : w.stills = view
  finals : w.finals = finals
  polled : w.polled = some false
  folding : w.folding = some w.source.isSome
  ended : w.ended = none

theorem nameSource_triple (options : TranscribeOptions) (family : MediaFamily) {finals : Nat}
    (hView : view ≠ .running) {E : Thrown → WorkerGhost → Prop} :
    WorkerTriple total
      (fun w => w.Working view ∧ w.finals = finals ∧ w.polled = some false)
      (nameSource options family) (fun _ => WorkerGhost.Named view finals) E := by
  refine .bind
    (Q := fun folding _ w => w.stills = view ∧ w.finals = finals ∧ w.polled = some false ∧
      w.folding = some folding ∧ w.source = none ∧ w.complete = none ∧ w.ended = none)
    (ask_triple fun w ⟨hWorking, hFinals, hPolled⟩ => ⟨hWorking.ended, fun folding =>
      ⟨hWorking.stills, hFinals, hPolled, rfl, hWorking.source, hWorking.complete,
        hWorking.ended⟩⟩) fun folding => ?_
  cases folding with
  | false =>
    refine .pure () fun _ w ⟨hStills, hFinals, hPolled, hFolding, hSource, _, hEnded⟩ => ?_
    exact ⟨hStills, hFinals, hPolled, by rw [hFolding, hSource]; rfl, hEnded⟩
  | true =>
    refine .bind
      (Q := fun complete _ w => w.stills = view ∧ w.finals = finals ∧ w.polled = some false ∧
        w.folding = some true ∧ w.source = none ∧ w.complete = some complete ∧ w.ended = none)
      (ask_triple fun w ⟨hStills, hFinals, hPolled, hFolding, hSource, hComplete, hEnded⟩ =>
        ⟨hEnded, hComplete, fun complete =>
          ⟨hStills, hFinals, hPolled, hFolding, hSource, rfl, hEnded⟩⟩) fun complete => ?_
    cases complete with
    | true =>
      refine .bind
        (Q := fun bytes _ w => bytes = total ∧ w.stills = view ∧ w.finals = finals ∧
          w.polled = some false ∧ w.folding = some true ∧ w.source = none ∧
          w.complete = some true ∧ w.ended = none)
        ?_ fun bytes => ?_
      · refine ask_triple fun w h => ?_
        intro bytes hBytes
        exact ⟨hBytes h.2.2.2.2.2.1, h⟩
      refine ask_triple fun w
        ⟨hBytes, hStills, hFinals, hPolled, hFolding, hSource, hComplete, hEnded⟩ => ?_
      refine ⟨by rw [hStills]; exact hView, hEnded, hSource, by rw [hComplete]; rfl, ?_,
        hStills, hFinals, hPolled, hFolding, hEnded⟩
      rw [hComplete, hBytes]
      rfl
    | false =>
      refine ask_triple fun w
        ⟨hStills, hFinals, hPolled, hFolding, hSource, hComplete, hEnded⟩ => ?_
      refine ⟨by rw [hStills]; exact hView, hEnded, hSource, by rw [hComplete]; rfl, ?_,
        hStills, hFinals, hPolled, hFolding, hEnded⟩
      rw [hComplete]
      rfl

theorem WorkerGhost.Ends.of_code {status : Status} {w : WorkerGhost} (hOk : status.isOk = false)
    (hCode : status.code ≠ .invalidArgument) : w.Ends status :=
  ⟨fun h => (Bool.false_ne_true (hOk.symm.trans h)).elim, fun h => (hCode h).elim⟩

theorem goneAfter_triple (result : EngineResult) {E : Thrown → WorkerGhost → Prop} :
    WorkerTriple total (Transcribed view result) (goneAfter result)
      (fun gone w => Transcribed view result w ∧
        (gone = false → result.aborted = false ∧ w.polled = some false)) E := by
  unfold goneAfter
  cases hAborted : result.aborted with
  | true => exact .pure true fun _ _ h => ⟨h, nofun⟩
  | false =>
    have hGone := @gone_triple total (Transcribed view result) (fun _ h => h.1.short)
      (fun _ polled h => ⟨h.1.polling polled, h.2⟩) E
    exact hGone.post fun gone _ w h => ⟨h.1, fun hGone => ⟨rfl, h.2 hGone⟩⟩

theorem conclude_triple (options : TranscribeOptions) (family : MediaFamily)
    (result : EngineResult) (hView : view ≠ .running) {E : Thrown → WorkerGhost → Prop} :
    WorkerTriple total (Transcribed view result) (conclude options family result)
      (fun status w => w.Ends status) E := by
  refine .bind (goneAfter_triple result) fun gone => ?_
  cases gone with
  | true => exact .pure _ fun _ _ _ => .of_code rfl (by decide)
  | false =>
    refine .bind (Q := fun _ _ w => ∃ finals, w.Named view finals ∧
      result.finalSegments = UInt32.ofNat finals) ?_ fun _ => ?_
    · rintro s w ⟨hTranscribed, hGone⟩
      obtain ⟨hAborted, hPolled⟩ := hGone rfl
      refine (nameSource_triple options family hView).post (fun _ _ _ hNamed => ?_) s w
        ⟨hTranscribed.1, rfl, hPolled⟩
      exact ⟨w.finals, hNamed, hTranscribed.2 hAborted⟩
    · refine .bind (Q := fun keyframes _ w => (∃ finals, w.Named view finals ∧
        result.finalSegments = UInt32.ofNat finals) ∧ w.frames = some keyframes) ?_
        fun keyframes => ?_
      · refine ask_triple fun w ⟨finals, hNamed, hCount⟩ => ?_
        refine ⟨by rw [hNamed.stills]; exact hView, fun keyframes => ⟨⟨finals, ?_, hCount⟩, rfl⟩⟩
        exact ⟨hNamed.stills, hNamed.finals, hNamed.polled, hNamed.folding, hNamed.ended⟩
      · refine .bind (Q := fun finished _ w => w.ended = some finished) ?_ fun finished => ?_
        · refine ask_triple fun w ⟨⟨finals, hNamed, hCount⟩, hFrames⟩ => ?_
          refine ⟨by rw [hNamed.stills]; exact hView, hNamed.ended, hNamed.polled,
            hNamed.folding, ?_, hFrames, fun finished => rfl⟩
          rw [hNamed.finals]
          exact hCount
        · cases finished with
          | true =>
            refine .bind (Q := fun _ _ w => w.ended = some true) ?_ fun _ => ?_
            · exact ask_triple fun w h => h
            exact .pure _ fun _ w h => ⟨fun _ => h, nofun⟩
          | false => exact .pure _ fun _ _ _ => .of_code rfl (by decide)

variable (config : Config) (options : TranscribeOptions) (rounds : Nat)

/-- The container facts go out before anything else. -/
theorem mediaInfo_triple (info : MediaInfo) {E : Thrown → WorkerGhost → Prop} :
    WorkerTriple total (Counting view []) (ask (.write (.mediaInfo info)))
      (fun _ => Counting view []) E :=
  write_triple rfl (fun _ h => h.1) (fun hFinal => nomatch hFinal) fun _ _ h => h

theorem decodeInProcess_triple (family : MediaFamily) :
    WorkerTriple total (Counting .absent []) (decodeInProcess config options rounds family)
      (fun status w => w.Ends status) (fun _ => WorkerGhost.Short) := by
  refine .bind (work_triple _) fun info => ?_
  split
  · exact .pure _ fun _ _ _ => .of_code rfl (by simp [tooLong])
  · refine .bind (mediaInfo_triple _) fun written => ?_
    cases written with
    | false => exact .pure _ fun _ _ _ => .of_code rfl (by decide)
    | true =>
      refine .bind (work_triple _) fun _ => ?_
      refine .bind (transcribeFrom_triple config options rounds fun asked _ => decode_triple asked)
        fun result => ?_
      exact conclude_triple options family result (by decide)

theorem spawnKeyframes_triple (probe : ProbeInfo) {E : Thrown → WorkerGhost → Prop} :
    WorkerTriple total (Counting .absent []) (spawnKeyframes config options probe)
      (fun _ w => ∃ view, Counting view [] w) E := by
  unfold spawnKeyframes
  split
  · refine ask_triple fun w ⟨hWorking, hFinals⟩ => ?_
    refine ⟨hWorking.stills, hWorking.ended, hWorking.source, hWorking.frames, .running, ?_, hFinals⟩
    exact ⟨rfl, hWorking.folding, hWorking.complete, hWorking.source, hWorking.frames,
      hWorking.ended, hWorking.exited⟩
  · exact .pure () fun _ w h => ⟨.absent, h⟩

theorem endAudio_triple (result : EngineResult) :
    WorkerTriple total (Transcribed view result) (endAudio result)
      (fun _ => Transcribed view result) (fun _ => WorkerGhost.Short) := by
  have hUse : ∀ tool, WorkerTriple total (Transcribed view result) (Task.use tool)
      (fun _ => Transcribed view result) (fun _ => WorkerGhost.Short) := fun tool =>
    (use_triple fun w cut h => ⟨h.1.cutting cut, h.2⟩).except fun error s w h => by
      exact h.1.short
  unfold endAudio
  split
  · exact .bind (hUse _) fun _ => ask_triple fun w h => h
  · exact hUse _

/-- The result of a transcription whose keyframe thread, if any, has been joined. -/
def Joined (result : EngineResult) (w : WorkerGhost) : Prop :=
  ∃ view, view ≠ .running ∧ Transcribed view result w

theorem joinKeyframes_triple (result : EngineResult) {E : Thrown → WorkerGhost → Prop} :
    WorkerTriple total (Transcribed view result) (ask .joinKeyframes)
      (fun _ => Joined result) E := by
  refine ask_triple fun w ⟨hWorking, hCount⟩ => ⟨_, ?_, ⟨rfl, hWorking.folding,
    hWorking.complete, hWorking.source, hWorking.frames, hWorking.ended, hWorking.exited⟩, hCount⟩
  dsimp only
  split
  · decide
  · assumption

theorem transcribeWithStills_triple (probe : ProbeInfo) :
    WorkerTriple total (Counting .absent []) (transcribeWithStills config options rounds probe)
      Joined (fun _ => WorkerGhost.Short) := by
  refine .bind (spawnKeyframes_triple config options probe) fun _ => ?_
  rintro s w ⟨view, hCounting⟩
  revert s w
  change WorkerTriple total (Counting view []) _ _ _
  refine .bind (Q := fun _ _ => Counting view []) (ask_triple fun w h => h) fun _ => ?_
  refine .bind (work_triple .openAudio) fun _ => ?_
  refine .bind (transcribeFrom_triple config options rounds fun asked finals =>
    (work_triple (.readAudio asked)).pre fun _ _ h => h.1) fun result => ?_
  refine .bind (endAudio_triple result) fun _ => ?_
  refine .bind (joinKeyframes_triple result) fun _ => ?_
  refine .bind (Q := fun _ _ => Joined result) (ask_triple fun w h answer => h) fun error => ?_
  cases error with
  | none => exact .pure result fun _ _ h => h
  | some error =>
    change WorkerTriple total _ (if result.aborted then _ else _) _ _
    split
    · exact .pure result fun _ _ h => h
    · exact .throw error fun _ w ⟨_, _, h⟩ => h.1.short

theorem joiningStills_triple {P : WorkerGhost → Prop} {body : Task α}
    {Q : α → WorkerGhost → Prop}
    (h : WorkerTriple total P body Q (fun _ => WorkerGhost.Short)) :
    WorkerTriple total P (joiningStills body) Q (fun _ => WorkerGhost.Short) := by
  refine .attempt_bind h (fun a => .pure a fun _ _ hQ => hQ) fun error => ?_
  refine .bind (Q := fun _ _ => WorkerGhost.Short) (ask_triple fun w hShort => hShort) fun _ => ?_
  refine .bind (Q := fun _ _ => WorkerGhost.Short) (ask_triple fun w hShort => hShort) fun _ => ?_
  exact .throw error fun _ _ hShort => hShort

theorem transcribeProbed_triple (family : MediaFamily) (probe : ProbeInfo) :
    WorkerTriple total (fun w => Counting .absent [] w ∧ w.polled = some false)
      (transcribeProbed config options rounds family probe)
      (fun status w => w.Ends status) (fun _ => WorkerGhost.Short) := by
  unfold transcribeProbed
  split
  · exact .pure _ fun _ w h => ⟨nofun, fun _ => h.2⟩
  · split
    · exact .pure _ fun _ _ _ => .of_code rfl (by simp [tooLong])
    · refine .bind ((mediaInfo_triple _).pre fun _ _ h => h.1) fun written => ?_
      cases written with
      | false => exact .pure _ fun _ _ _ => .of_code rfl (by decide)
      | true =>
        refine .bind (work_triple _) fun _ => ?_
        refine .bind (joiningStills_triple
          (transcribeWithStills_triple config options rounds probe)) fun result => ?_
        exact fun s w ⟨view, hView, h⟩ => conclude_triple options family result hView s w h

theorem demuxWithFfmpeg_triple (family : MediaFamily) :
    WorkerTriple total (Counting .absent []) (demuxWithFfmpeg config options rounds family)
      (fun status w => w.Ends status) (fun _ => WorkerGhost.Short) := by
  refine .bind (Q := fun _ _ => Counting .absent []) (ask_triple fun w h => h) fun _ => ?_
  refine .bind (gone_triple (fun w h => h.1.short) fun w polled h => ⟨h.1.polling polled, h.2⟩)
    fun gone => ?_
  cases gone with
  | true => exact .pure _ fun _ _ _ => .of_code rfl (by decide)
  | false =>
    have hUse : ∀ tool, WorkerTriple total
        (fun w => Counting .absent [] w ∧ w.polled = some false) (Task.use tool)
        (fun _ w => Counting .absent [] w ∧ w.polled = some false)
        (fun _ => WorkerGhost.Short) := fun tool =>
      (use_triple fun w cut h => ⟨⟨h.1.1.cutting cut, h.1.2⟩, h.2⟩).except fun error s w h => by
        exact h.1.1.short
    refine .bind (Q := fun _ _ w => Counting .absent [] w ∧ w.polled = some false) ?_
      fun bytes => ?_
    · exact ask_triple fun w h answer _ => ⟨h.1, h.2 rfl⟩
    · refine .bind (hUse _) fun _ => ?_
      refine .bind (hUse _) fun probe => ?_
      exact transcribeProbed_triple config options rounds family probe

theorem routeMedia_triple (family : MediaFamily) :
    WorkerTriple total (Counting .absent []) (routeMedia config options rounds family)
      (fun status w => w.Ends status) (fun _ => WorkerGhost.Short) := by
  unfold routeMedia
  split
  · exact .pure _ fun _ _ _ => .of_code rfl (by simp)
  · split
    · exact decodeInProcess_triple config options rounds family
    · exact demuxWithFfmpeg_triple config options rounds family

theorem processBody_triple :
    WorkerTriple total (Counting .absent []) (processBody config options rounds)
      (fun status w => w.Ends status) (fun _ => WorkerGhost.Short) := by
  refine .bind (Q := fun _ _ => Counting .absent []) (ask_triple fun w h answer => h) fun size => ?_
  refine .bind (Q := fun _ _ => Counting .absent []) (ask_triple fun w h answer => h)
    fun aborted => ?_
  cases aborted with
  | true => exact .pure _ fun _ _ _ => .of_code rfl (by decide)
  | false =>
    refine .bind (Q := fun _ _ => Counting .absent []) (ask_triple fun w h answer => h)
      fun start => ?_
    exact routeMedia_triple config options rounds _

/-- No exception ends in success, and one is blamed on the media only after a negative check. -/
theorem handle_triple (thrown : Thrown) {E : Thrown → WorkerGhost → Prop} :
    WorkerTriple total WorkerGhost.Short (handle config thrown)
      (fun status w => w.Ends status) E := by
  have hGone := @gone_triple total WorkerGhost.Short (fun w h => h) (fun w polled h => h) E
  cases thrown with
  | cancelled => exact .pure _ fun _ _ _ => .of_code rfl (by decide)
  | queueTimeout what => exact .pure _ fun _ _ _ => .of_code rfl (by simp)
  | durationCapExceeded what => exact .pure _ fun _ _ _ => .of_code rfl (by simp)
  | decodeError what =>
    refine .bind hGone fun gone => ?_
    cases gone with
    | true => exact .pure _ fun _ _ _ => .of_code rfl (by decide)
    | false => exact .pure _ fun _ w h => ⟨nofun, fun _ => h.2 rfl⟩
  | toolError what =>
    refine .bind hGone fun gone => ?_
    cases gone with
    | true => exact .pure _ fun _ _ _ => .of_code rfl (by decide)
    | false => exact .pure _ fun _ _ _ => .of_code rfl (by simp)
  | other what =>
    refine .bind hGone fun gone => ?_
    cases gone with
    | true => exact .pure _ fun _ _ _ => .of_code rfl (by decide)
    | false => exact .pure _ fun _ _ _ => .of_code rfl (by simp)

theorem processStream_triple {E : Thrown → WorkerGhost → Prop} :
    WorkerTriple total (Counting .absent []) (processStream config options rounds)
      (fun status w => w.Ends status) E :=
  .attempt_bind (processBody_triple config options rounds) (fun status => .pure status fun _ _ h => h)
    fun thrown => handle_triple config thrown

/-- The worker before its first request. -/
def WorkerGhost.initial : WorkerGhost := ⟨0, .absent, false, none, none, none, none, none, none, false⟩

theorem worker_meets :
    (asThread (workerBody config options rounds)).Meets (workerContract total)
      WorkerGhost.initial fun _ _ => True := by
  have hBody : WorkerTriple total (Counting .absent []) (workerBody config options rounds)
      (fun _ _ => True) (fun _ _ => True) := by
    refine .bind (processStream_triple config options rounds) fun status => ?_
    refine .bind (Q := fun _ _ _ => True) ?_ fun _ => .pure none fun _ _ _ => trivial
    exact ask_triple fun w h => ⟨h.1, h.2, trivial⟩
  refine Program.Meets.bind ((hBody () WorkerGhost.initial ⟨?_, rfl⟩).imp fun _ _ _ => trivial)
  exact ⟨rfl, rfl, rfl, rfl, rfl, rfl, rfl⟩

end Worker

section Rpc

def UploadMessage.data : UploadMessage → Bytes
  | .chunk data => data
  | .notChunk => []

/-- The media bytes of a stream of messages. -/
def mediaBytes (messages : List UploadMessage) : Bytes := messages.flatMap UploadMessage.data

variable {total : Bytes} {α : Type}

/-- No exception leaves the RPC thread. -/
abbrev RpcTriple (total : Bytes) (P : RpcGhost → Prop) (task : Task α)
    (Q : α → RpcGhost → Prop) : Prop :=
  Triple (rpcContract total) (fun _ => P) task (fun a _ => Q a) (fun _ _ _ => False)

/-- The upload is open; what is still to come makes it whole. -/
def Uploading (total : Bytes) (messages : List UploadMessage) (g : RpcGhost) : Prop :=
  g.appended ++ mediaBytes messages = total ∧ g.completed = false

/-- A loop that ends well has appended everything. -/
theorem readUpload_triple (config : Config) (messages : List UploadMessage) (sawBytes : Bool) :
    RpcTriple total (Uploading total messages) (readUpload config messages sawBytes)
      (fun reading g => reading.status.isOk = true → g.appended = total) := by
  induction messages generalizing sawBytes with
  | nil =>
    refine .pure _ fun _ g h _ => ?_
    rw [← h.1]
    exact (List.append_nil g.appended).symm
  | cons message messages ih =>
    cases message with
    | notChunk => exact .pure _ fun _ _ _ => nofun
    | chunk data =>
      refine .bind (Q := fun _ _ => Uploading total (.chunk data :: messages))
        (.perform fun _ g h size => h) fun size => ?_
      split
      · exact .pure _ fun _ _ _ => nofun
      · refine .bind (Q := fun _ _ => Uploading total messages) (.perform fun _ g h => ?_)
          fun _ => ih _
        exact ⟨h.2, (List.append_assoc ..).trans h.1, h.2⟩

/-- The stop is requested before the abort. -/
theorem stopUpload_triple {P : RpcGhost → Prop} :
    RpcTriple total P stopUpload (fun _ _ => True) := by
  refine .bind (Q := fun _ _ g => g.stopping = true) (.perform fun _ g _ => ?_) fun _ => ?_
  · exact Eq.refl true
  · exact .perform fun _ _ hStopping => ⟨hStopping, trivial⟩

theorem closeUpload_triple (reading : Reading) :
    RpcTriple total (fun g => reading.status.isOk = true → g.appended = total)
      (closeUpload reading) (fun _ _ => True) := by
  have hFailed : RpcTriple total (fun g => reading.status.isOk = true → g.appended = total)
      (uploadFailed reading) (fun failed g => failed = false → g.appended = total) := by
    unfold uploadFailed
    split
    · rename_i hOk
      exact .perform fun _ g h failed _ => h hOk
    · exact .pure true fun _ _ _ => nofun
  refine .bind hFailed fun failed => ?_
  cases failed with
  | true => exact .bind stopUpload_triple fun _ => .pure _ fun _ _ _ => trivial
  | false =>
    simp only [Bool.false_eq_true, if_false]
    split
    · exact .bind stopUpload_triple fun _ => .pure _ fun _ _ _ => trivial
    · refine .bind (Q := fun _ _ _ => True) (.perform fun _ g h => ⟨h trivial, trivial⟩) fun _ => ?_
      exact .pure _ fun _ _ _ => trivial

theorem watchWorker_triple {P : RpcGhost → Prop} :
    RpcTriple total P watchWorker (fun _ _ => True) := by
  refine .bind (Q := fun _ _ _ => True) (.perform fun _ g h answer => trivial) fun cancelled => ?_
  cases cancelled with
  | true => exact .perform fun _ _ _ => trivial
  | false => exact .pure () fun _ _ _ => trivial

def RpcGhost.initial : RpcGhost := ⟨[], false, false⟩

theorem rpc_meets (config : Config) (messages : List UploadMessage) :
    (asThread (rpcBody config messages)).Meets (rpcContract (mediaBytes messages))
      RpcGhost.initial fun _ _ => True := by
  have hBody : RpcTriple (mediaBytes messages) (Uploading (mediaBytes messages) messages)
      (rpcBody config messages) (fun _ _ => True) := by
    refine .bind (readUpload_triple config messages false) fun reading => ?_
    refine .bind (closeUpload_triple reading) fun status => ?_
    refine .bind watchWorker_triple fun _ => ?_
    refine .bind (Q := fun _ _ _ => True) (.perform fun _ _ _ _ => trivial) fun _ => ?_
    exact .pure _ fun _ _ _ => trivial
  exact Program.Meets.bind ((hBody () RpcGhost.initial ⟨rfl, rfl⟩).imp fun _ _ _ => trivial)

end Rpc

section Keyframes

/-- Between two stills nothing is left to count. -/
theorem extractKeyframes_triple (extraction : Extraction) :
    Triple stillsContract (fun _ k => k = .running false) (extractKeyframes extraction)
      (fun _ _ k => k = .running false) (fun _ _ k => k = .running false) := by
  induction extraction with
  | done => exact .pure () fun _ _ h => h
  | throw error => exact .throw error fun _ _ h => h
  | frame frame next ih =>
    refine .bind (Q := fun _ _ k => k = .running false) (.perform fun _ k h stop => h) fun stop => ?_
    cases stop with
    | true => exact ih false
    | false =>
      refine .bind (Q := fun written _ k => k = .running written)
        (.perform fun _ k h => ⟨h, fun written => rfl⟩) fun written => ?_
      cases written with
      | false => exact ih false
      | true =>
        refine .bind (Q := fun _ _ k => k = .running false) (.perform fun _ k h => ⟨h, rfl⟩)
          fun _ => ih true

theorem stills_meets (extraction : UInt32 → Extraction) :
    (asThread (keyframeBody extraction)).Meets stillsContract StillsGhost.waiting
      fun _ _ => True := by
  have hBody : Triple stillsContract (fun _ k => k = .waiting) (keyframeBody extraction)
      (fun _ _ _ => True) (fun _ _ _ => False) := by
    refine .bind (Q := fun _ _ k => k = .running false)
      (.perform fun _ k h => ⟨h, fun interval => rfl⟩) fun interval => ?_
    refine .bind (Q := fun _ _ k => k = .running false)
      (.attempt (extractKeyframes_triple (extraction interval))) fun result => ?_
    refine .bind (Q := fun _ _ _ => True) (.perform fun _ k h => ⟨h, trivial⟩) fun _ => ?_
    exact .pure none fun _ _ _ => trivial
  exact Program.Meets.bind ((hBody () .waiting rfl).imp fun _ _ _ => trivial)

end Keyframes

end GrpcAsr.Asr
