import Mathlib.Data.List.Induction
import Mathlib.Data.List.TakeWhile
import GrpcAsr.Asr.DocumentFold

/-!
# Items of the folded document

What one event does to the items of the document, and what a run of events with the source
named in between leaves there: the finals and keyframes before the first trailer, in order.
-/

namespace GrpcAsr.Asr

set_option autoImplicit false

open Media (Bytes ascii)

/-- The references of finals and keyframes in wire order, from given places in their lists. -/
def childRefs : List TranscribeResponse → Nat → Nat → List Bytes
  | [], _, _ => []
  | .finalSegment _ :: events, texts, pictures =>
    AsrDocumentFold.itemRef "#/texts/" texts :: childRefs events (texts + 1) pictures
  | .keyframe _ :: events, texts, pictures =>
    AsrDocumentFold.itemRef "#/pictures/" pictures :: childRefs events texts (pictures + 1)
  | _ :: events, texts, pictures => childRefs events texts pictures

def finalsOf (events : List TranscribeResponse) : List Segment :=
  events.filterMap TranscribeResponse.final?

def keyframesOf (events : List TranscribeResponse) : List Keyframe :=
  events.filterMap TranscribeResponse.keyframe?

/-- The distinct speakers of finals, in order of first appearance. -/
def speakersOf (segments : List Segment) : List Bytes :=
  ((segments.map Segment.speakerId).filter fun speaker => !speaker.isEmpty).eraseDups

theorem childRefs_append (events more : List TranscribeResponse) (texts pictures : Nat) :
    childRefs (events ++ more) texts pictures =
      childRefs events texts pictures ++
        childRefs more (texts + (finalsOf events).length) (pictures + (keyframesOf events).length) := by
  induction events generalizing texts pictures with
  | nil => rfl
  | cons first events ih =>
    cases first with
    | finalSegment segment =>
      have hCount : texts + (finalsOf (.finalSegment segment :: events)).length =
          texts + 1 + (finalsOf events).length := by
        simp only [finalsOf, List.filterMap_cons, TranscribeResponse.final?, List.length_cons]
        omega
      rw [List.cons_append, childRefs, ih, hCount]
      rfl
    | keyframe frame =>
      have hCount : pictures + (keyframesOf (.keyframe frame :: events)).length =
          pictures + 1 + (keyframesOf events).length := by
        simp only [keyframesOf, List.filterMap_cons, TranscribeResponse.keyframe?, List.length_cons]
        omega
      rw [List.cons_append, childRefs, ih, hCount]
      rfl
    | mediaInfo | partialSegment | complete | document | notSet => exact ih texts pictures

def addSpeaker (speakers : List Bytes) (speaker : Bytes) : List Bytes :=
  if speaker.isEmpty || speakers.contains speaker then speakers else speakers ++ [speaker]

theorem speakersOf_snoc (segments : List Segment) (segment : Segment) :
    speakersOf (segments ++ [segment]) = addSpeaker (speakersOf segments) segment.speakerId := by
  rw [speakersOf, List.map_append, List.filter_append, List.eraseDups_append, List.map_singleton,
    addSpeaker]
  cases hEmpty : segment.speakerId.isEmpty with
  | true =>
    rw [List.filter_cons_of_neg (by simp [hEmpty])]
    exact List.append_nil _
  | false =>
    rw [List.filter_cons_of_pos (by simp [hEmpty]), List.filter_nil, List.removeAll, List.filter_singleton]
    have hContains : ((segments.map Segment.speakerId).filter fun speaker => !speaker.isEmpty).elem
        segment.speakerId = (speakersOf segments).contains segment.speakerId := by
      rw [speakersOf, Bool.eq_iff_iff, List.elem_iff, List.contains_iff_mem, List.mem_eraseDups]
    rw [hContains]
    cases (speakersOf segments).contains segment.speakerId with
    | true => exact List.append_nil _
    | false => rfl

namespace AsrDocumentFold

/-- What one event leaves in an open fold. -/
structure Takes (fold : AsrDocumentFold) (event : TranscribeResponse) (next : AsrDocumentFold) : Prop where
  model : next.model = fold.model
  version : next.version = fold.version
  options : next.options = fold.options
  finished : next.finished = event.complete?.isSome
  roots : next.document.body.selfRef = fold.document.body.selfRef ∧
    next.document.furniture = fold.document.furniture
  texts : next.document.texts = fold.document.texts ++ event.final?.toList.map fold.textItem
  pictures : next.document.pictures =
    fold.document.pictures ++ event.keyframe?.toList.map fold.pictureItem
  children : next.document.body.children =
    fold.document.body.children ++
      childRefs [event] fold.document.texts.length fold.document.pictures.length
  speakers : (mediaOf next.document).speakers =
    (event.final?.toList.map Segment.speakerId).foldl addSpeaker (mediaOf fold.document).speakers

theorem registerSpeaker_body (document : Document) (speaker : Bytes) :
    (registerSpeaker document speaker).body = document.body ∧
      (registerSpeaker document speaker).furniture = document.furniture ∧
      (registerSpeaker document speaker).texts = document.texts ∧
      (registerSpeaker document speaker).pictures = document.pictures := by
  rw [registerSpeaker]
  split
  · exact ⟨rfl, rfl, rfl, rfl⟩
  · exact ⟨rfl, rfl, rfl, rfl⟩

theorem registerSpeaker_speakers (document : Document) (speaker : Bytes) :
    (mediaOf (registerSpeaker document speaker)).speakers =
      if (mediaOf document).speakers.contains speaker then (mediaOf document).speakers
      else (mediaOf document).speakers ++ [speaker] := by
  rw [registerSpeaker]
  split
  · rfl
  · rfl

theorem takes_final (fold : AsrDocumentFold) (hOpen : fold.finished = false) (segment : Segment) :
    fold.Takes (.finalSegment segment) (fold.onFinalSegment segment) := by
  let document :=
    { fold.document with
      texts := fold.document.texts ++ [fold.textItem segment]
      body := addChild fold.document.body (fold.textItem segment).selfRef }
  cases hEmpty : segment.speakerId.isEmpty with
  | true =>
    have hNext : fold.onFinalSegment segment = { fold with document := document } := by
      rw [onFinalSegment, hEmpty]
      rfl
    have hSpeakers : addSpeaker (mediaOf fold.document).speakers segment.speakerId =
        (mediaOf fold.document).speakers := by
      rw [addSpeaker, hEmpty]
      rfl
    rw [hNext]
    exact ⟨rfl, rfl, rfl, hOpen, ⟨rfl, rfl⟩, rfl, (List.append_nil _).symm, rfl, hSpeakers.symm⟩
  | false =>
    have hNext : fold.onFinalSegment segment =
        { fold with document := registerSpeaker document segment.speakerId } := by
      rw [onFinalSegment, hEmpty]
      rfl
    obtain ⟨hBody, hFurniture, hTexts, hPictures⟩ := registerSpeaker_body document segment.speakerId
    have hSpeakers := registerSpeaker_speakers document segment.speakerId
    have hAdd : addSpeaker (mediaOf fold.document).speakers segment.speakerId =
        if (mediaOf document).speakers.contains segment.speakerId then (mediaOf document).speakers
        else (mediaOf document).speakers ++ [segment.speakerId] := by
      rw [addSpeaker, hEmpty]
      rfl
    rw [hNext]
    exact ⟨rfl, rfl, rfl, hOpen, ⟨(congrArg GroupItem.selfRef hBody).trans rfl, hFurniture⟩, hTexts,
      hPictures.trans (List.append_nil _).symm, (congrArg GroupItem.children hBody).trans rfl,
      hSpeakers.trans hAdd.symm⟩

theorem takes_consume (parse : Bytes → Option Nat) (fold : AsrDocumentFold) (hOpen : fold.finished = false)
    (event : TranscribeResponse) : fold.Takes event (fold.consume parse event) := by
  have hNil : ∀ {α : Type} (items : List α), items = items ++ [] := fun items =>
    (List.append_nil items).symm
  have hConsume : ∀ next : AsrDocumentFold, (if fold.finished then fold else next) = next :=
    fun next => by rw [hOpen]; rfl
  rw [consume.eq_def, hConsume]
  cases event with
  | finalSegment segment => exact takes_final fold hOpen segment
  | keyframe frame => exact ⟨rfl, rfl, rfl, hOpen, ⟨rfl, rfl⟩, hNil _, rfl, rfl, rfl⟩
  | mediaInfo info =>
    refine ⟨rfl, rfl, rfl, hOpen, ⟨rfl, rfl⟩, hNil _, hNil _, hNil _, ?_⟩
    dsimp only [onMediaInfo, mediaOf]
    split <;> split <;> rfl
  | complete trailer =>
    refine ⟨rfl, rfl, rfl, rfl, ⟨rfl, rfl⟩, hNil _, hNil _, hNil _, ?_⟩
    dsimp only [onComplete, mediaOf]
    split <;> rfl
  | partialSegment | document | notSet =>
    exact ⟨rfl, rfl, rfl, hOpen, ⟨rfl, rfl⟩, hNil _, hNil _, hNil _, rfl⟩

/-- A call on the fold: an event of the stream or the source, once it is known. -/
inductive FoldCall
  | event (event : TranscribeResponse)
  | setSource (origin : DocumentOrigin)

def apply (parse : Bytes → Option Nat) (fold : AsrDocumentFold) : FoldCall → AsrDocumentFold
  | .event event => fold.consume parse event
  | .setSource origin => fold.setSource origin

def applyAll (parse : Bytes → Option Nat) (fold : AsrDocumentFold) (calls : List FoldCall) :
    AsrDocumentFold := calls.foldl (apply parse) fold

def eventsOf (calls : List FoldCall) : List TranscribeResponse :=
  calls.filterMap fun
    | .event event => some event
    | .setSource _ => none

/-- The events before the first trailer. -/
def openEvents (calls : List FoldCall) : List TranscribeResponse :=
  (eventsOf calls).takeWhile fun event => !event.complete?.isSome

/-- What a run of calls leaves in the fold. -/
structure Holds (created : AsrDocumentFold) (calls : List FoldCall) (fold : AsrDocumentFold) : Prop where
  model : fold.model = created.model
  version : fold.version = created.version
  options : fold.options = created.options
  finished : fold.finished = (eventsOf calls).any fun event => event.complete?.isSome
  roots : fold.document.body.selfRef = created.document.body.selfRef ∧
    fold.document.furniture = created.document.furniture
  texts : fold.document.texts =
    (finalsOf (openEvents calls)).mapIdx fun place segment =>
      { created.textItem segment with selfRef := itemRef "#/texts/" place }
  pictures : fold.document.pictures =
    (keyframesOf (openEvents calls)).mapIdx fun place frame =>
      { created.pictureItem frame with selfRef := itemRef "#/pictures/" place }
  children : fold.document.body.children = childRefs (openEvents calls) 0 0
  speakers : (mediaOf fold.document).speakers = speakersOf (finalsOf (openEvents calls))

theorem eventsOf_snoc_event (calls : List FoldCall) (event : TranscribeResponse) :
    eventsOf (calls ++ [.event event]) = eventsOf calls ++ [event] := List.filterMap_append

theorem eventsOf_snoc_source (calls : List FoldCall) (origin : DocumentOrigin) :
    eventsOf (calls ++ [.setSource origin]) = eventsOf calls :=
  List.filterMap_append.trans (List.append_nil _)

theorem openEvents_closed {calls : List FoldCall} (event : TranscribeResponse)
    (h : ((eventsOf calls).any fun event => event.complete?.isSome) = true) :
    openEvents (calls ++ [.event event]) = openEvents calls := by
  obtain ⟨trailer, hTrailer, hComplete⟩ := List.any_eq_true.mp h
  rw [openEvents, eventsOf_snoc_event, List.takeWhile_append, if_neg]
  · rfl
  · intro hAll
    have hOpen := List.takeWhile_eq_self_iff.mp ((List.takeWhile_sublist _).eq_of_length hAll) trailer hTrailer
    rw [hComplete] at hOpen
    cases hOpen

theorem openEvents_open {calls : List FoldCall} (event : TranscribeResponse)
    (h : ((eventsOf calls).any fun event => event.complete?.isSome) = false) :
    openEvents (calls ++ [.event event]) =
      openEvents calls ++ if event.complete?.isSome then [] else [event] := by
  have hOpen : ∀ other ∈ eventsOf calls, (!other.complete?.isSome) = true := fun other hOther => by
    rw [Bool.not_eq_true', ← Bool.not_eq_true]
    exact List.any_eq_false.mp h other hOther
  have hSelf : openEvents calls = eventsOf calls := List.takeWhile_eq_self_iff.mpr hOpen
  rw [hSelf, openEvents, eventsOf_snoc_event, List.takeWhile_append_of_pos hOpen]
  cases hComplete : event.complete?.isSome with
  | false =>
    rw [List.takeWhile_cons_of_pos (by rw [hComplete]; rfl)]
    rfl
  | true =>
    rw [List.takeWhile_cons_of_neg (by rw [hComplete]; decide)]
    rfl

theorem sources_congr {left right : AsrDocumentFold} (hModel : left.model = right.model)
    (hVersion : left.version = right.version) : left.sources = right.sources := by
  funext startSeconds endSeconds avgLogprob
  rw [sources, sources, hModel, hVersion]

variable {created fold next : AsrDocumentFold} {calls : List FoldCall} {event : TranscribeResponse}

theorem Holds.textItem_eq (h : Holds created calls fold) (segment : Segment) :
    fold.textItem segment =
      { created.textItem segment with selfRef := itemRef "#/texts/" fold.document.texts.length } := by
  have hSources := @sources_congr fold created h.model h.version
  rw [textItem, textItem, h.options, hSources]

theorem Holds.pictureItem_eq (h : Holds created calls fold) (frame : Keyframe) :
    fold.pictureItem frame =
      { created.pictureItem frame with selfRef := itemRef "#/pictures/" fold.document.pictures.length } := by
  have hSources := @sources_congr fold created h.model h.version
  rw [pictureItem, pictureItem, hSources]

theorem Holds.closed (h : Holds created calls fold) (hFinished : fold.finished = true) :
    Holds created (calls ++ [.event event]) fold := by
  have hClosed := h.finished.symm.trans hFinished
  have hEvents := openEvents_closed event hClosed
  refine ⟨h.model, h.version, h.options, ?_, h.roots, ?_, ?_, ?_, ?_⟩
  · rw [eventsOf_snoc_event, List.any_append, hClosed, hFinished]
    rfl
  · rw [hEvents, h.texts]
  · rw [hEvents, h.pictures]
  · rw [hEvents, h.children]
  · rw [hEvents, h.speakers]

theorem Holds.setSource (h : Holds created calls fold) (origin : DocumentOrigin) :
    Holds created (calls ++ [.setSource origin]) (fold.setSource origin) := by
  have hEvents := eventsOf_snoc_source calls origin
  have hOpen : openEvents (calls ++ [.setSource origin]) = openEvents calls := by
    rw [openEvents, hEvents, openEvents]
  refine ⟨h.model, h.version, h.options, ?_, h.roots, ?_, ?_, ?_, ?_⟩
  · rw [hEvents]
    exact h.finished
  · rw [hOpen]
    exact h.texts
  · rw [hOpen]
    exact h.pictures
  · rw [hOpen]
    exact h.children
  · rw [hOpen]
    exact h.speakers

theorem Holds.takes (h : Holds created calls fold) (hOpen : fold.finished = false)
    (hTakes : fold.Takes event next) : Holds created (calls ++ [.event event]) next := by
  have hClosed := h.finished.symm.trans hOpen
  have hEvents := openEvents_open event hClosed
  have hNew : (if event.complete?.isSome then [] else [event]).filterMap TranscribeResponse.final? =
      event.final?.toList ∧
      (if event.complete?.isSome then [] else [event]).filterMap TranscribeResponse.keyframe? =
        event.keyframe?.toList ∧
      ∀ texts pictures, childRefs (if event.complete?.isSome then [] else [event]) texts pictures =
        childRefs [event] texts pictures := by
    cases event <;> exact ⟨rfl, rfl, fun _ _ => rfl⟩
  have hFinals : finalsOf (openEvents (calls ++ [.event event])) =
      finalsOf (openEvents calls) ++ event.final?.toList := by
    rw [hEvents, finalsOf, List.filterMap_append, hNew.1, finalsOf]
  have hKeyframes : keyframesOf (openEvents (calls ++ [.event event])) =
      keyframesOf (openEvents calls) ++ event.keyframe?.toList := by
    rw [hEvents, keyframesOf, List.filterMap_append, hNew.2.1, keyframesOf]
  have hTexts : fold.document.texts.length = (finalsOf (openEvents calls)).length := by
    rw [h.texts, List.length_mapIdx]
  have hPictures : fold.document.pictures.length = (keyframesOf (openEvents calls)).length := by
    rw [h.pictures, List.length_mapIdx]
  refine ⟨hTakes.model.trans h.model, hTakes.version.trans h.version, hTakes.options.trans h.options,
    ?_, ⟨hTakes.roots.1.trans h.roots.1, hTakes.roots.2.trans h.roots.2⟩, ?_, ?_, ?_, ?_⟩
  · rw [eventsOf_snoc_event, List.any_append, hClosed, hTakes.finished]
    simp
  · rw [hFinals, hTakes.texts, h.texts, List.mapIdx_append]
    cases hFinal : event.final? with
    | none => rfl
    | some segment =>
      simp only [Option.toList_some, List.map_singleton, List.mapIdx_singleton, Nat.zero_add, ← hTexts]
      rw [h.textItem_eq]
  · rw [hKeyframes, hTakes.pictures, h.pictures, List.mapIdx_append]
    cases hKeyframe : event.keyframe? with
    | none => rfl
    | some frame =>
      simp only [Option.toList_some, List.map_singleton, List.mapIdx_singleton, Nat.zero_add, ← hPictures]
      rw [h.pictureItem_eq]
  · rw [hEvents, childRefs_append, Nat.zero_add, Nat.zero_add, hNew.2.2, hTakes.children, h.children,
      hTexts, hPictures]
  · rw [hFinals, hTakes.speakers, h.speakers]
    cases event.final? with
    | none => rw [Option.toList_none, List.append_nil]; rfl
    | some segment => exact (speakersOf_snoc _ segment).symm

theorem holds_applyAll (parse : Bytes → Option Nat) (model version : Bytes) (options : FoldOptions)
    (calls : List FoldCall) :
    Holds (create model version options) calls ((create model version options).applyAll parse calls) := by
  induction calls using List.reverseRecOn with
  | nil => exact ⟨rfl, rfl, rfl, rfl, ⟨rfl, rfl⟩, rfl, rfl, rfl, rfl⟩
  | append_singleton calls call ih =>
    have hStep : (create model version options).applyAll parse (calls ++ [call]) =
        ((create model version options).applyAll parse calls).apply parse call := List.foldl_append
    rw [hStep]
    cases call with
    | setSource origin => exact ih.setSource origin
    | event event =>
      rw [apply]
      cases hFinished : (applyAll parse (create model version options) calls).finished with
      | false => exact ih.takes hFinished (takes_consume parse _ hFinished event)
      | true =>
        rw [consume.eq_def, hFinished]
        exact ih.closed hFinished

end AsrDocumentFold

end GrpcAsr.Asr
