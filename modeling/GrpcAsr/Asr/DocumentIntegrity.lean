import Mathlib.Data.List.Nodup
import GrpcAsr.Asr.DocumentItems
import GrpcAsr.Library.StdText

/-!
# Structural validity of the folded document

`document_integrity_errors` looks at one view per item: its reference, its parent's and its
children's. It reports nothing exactly where the references are distinct and resolve in both
directions, which is what every run of the fold leaves behind.
-/

namespace GrpcAsr.Asr

set_option autoImplicit false

open Media (Bytes ascii)

/-- One item as the checker sees it; the parent's reference is empty where there is none. -/
structure ItemView where
  selfRef : Bytes
  parentRef : Bytes
  children : List Bytes

def GroupItem.view (root : GroupItem) : ItemView := ⟨root.selfRef, [], root.children⟩

def TextItemBase.view (item : TextItemBase) : ItemView := ⟨item.selfRef, item.parent.getD [], []⟩

def PictureItem.view (item : PictureItem) : ItemView := ⟨item.selfRef, item.parent.getD [], []⟩

def Document.views (document : Document) : List ItemView :=
  document.body.view :: document.furniture.view ::
    (document.texts.map TextItemBase.view ++ document.pictures.map PictureItem.view)

/-- The first pass, which collects the references. -/
def refErrors : List Bytes → List ItemView → List Bytes
  | _, [] => []
  | seen, view :: views =>
    if view.selfRef.isEmpty then ascii "item with empty self_ref" :: refErrors seen views
    else if seen.contains view.selfRef then
      (ascii "duplicate self_ref " ++ view.selfRef) :: refErrors seen views
    else refErrors (view.selfRef :: seen) views

def refs (views : List ItemView) : List Bytes :=
  (views.map ItemView.selfRef).filter fun ref => !ref.isEmpty

def childrenOf (views : List ItemView) (ref : Bytes) : List Bytes :=
  (views.filter fun view => !view.selfRef.isEmpty && view.selfRef == ref).flatMap ItemView.children

/-- The second pass on one view: its children, then its parent. -/
def linkErrors (views : List ItemView) (view : ItemView) : List Bytes :=
  ((view.children.filter fun child => !(refs views).contains child).map fun child =>
    view.selfRef ++ ascii " lists unresolvable child " ++ child) ++
  if view.parentRef.isEmpty then []
  else if !(refs views).contains view.parentRef then
    [view.selfRef ++ ascii " has unresolvable parent " ++ view.parentRef]
  else if !(childrenOf views view.parentRef).contains view.selfRef then
    [view.parentRef ++ ascii " does not list child " ++ view.selfRef]
  else []

def viewErrors (views : List ItemView) : List Bytes :=
  refErrors [] views ++ views.flatMap (linkErrors views)

def documentIntegrityErrors (document : Document) : List Bytes := viewErrors document.views

/-- References that name one item each and resolve in both directions. -/
structure IntactViews (views : List ItemView) : Prop where
  named : ∀ view ∈ views, view.selfRef ≠ []
  distinct : (views.map ItemView.selfRef).Nodup
  children : ∀ view ∈ views, ∀ child ∈ view.children, ∃ other ∈ views, other.selfRef = child
  parents : ∀ view ∈ views, view.parentRef ≠ [] →
    ∃ parent ∈ views, parent.selfRef = view.parentRef ∧ view.selfRef ∈ parent.children

theorem refErrors_eq_nil {seen : List Bytes} {views : List ItemView} :
    refErrors seen views = [] ↔
      (∀ view ∈ views, view.selfRef ≠ [] ∧ view.selfRef ∉ seen) ∧
        (views.map ItemView.selfRef).Nodup := by
  induction views generalizing seen with
  | nil => simp [refErrors]
  | cons view views ih =>
    rw [refErrors, List.map_cons, List.nodup_cons, List.forall_mem_cons]
    split
    · rename_i hEmpty
      simp [List.isEmpty_iff.mp hEmpty]
    · rename_i hNamed
      split
      · rename_i hSeen
        simp [List.contains_iff_mem.mp hSeen]
      · rename_i hFresh
        rw [ih]
        have hNonempty : view.selfRef ≠ [] := fun h => hNamed (List.isEmpty_iff.mpr h)
        have hNew : view.selfRef ∉ seen := fun h => hFresh (List.contains_iff_mem.mpr h)
        constructor
        · rintro ⟨hAll, hNodup⟩
          refine ⟨⟨⟨hNonempty, hNew⟩, fun other hOther => ?_⟩, ?_, hNodup⟩
          · exact ⟨(hAll other hOther).1, fun h => (hAll other hOther).2 (List.mem_cons_of_mem _ h)⟩
          · intro hMem
            obtain ⟨other, hOther, hSame⟩ := List.mem_map.mp hMem
            exact (hAll other hOther).2 (hSame ▸ List.mem_cons_self)
        · rintro ⟨⟨-, hAll⟩, hHead, hNodup⟩
          refine ⟨fun other hOther => ⟨(hAll other hOther).1, ?_⟩, hNodup⟩
          rw [List.mem_cons, not_or]
          exact ⟨fun hSame => hHead (hSame ▸ List.mem_map_of_mem hOther), (hAll other hOther).2⟩

theorem mem_refs {views : List ItemView} {ref : Bytes} :
    ref ∈ refs views ↔ ref ≠ [] ∧ ∃ view ∈ views, view.selfRef = ref := by
  rw [refs, List.mem_filter, List.mem_map, Bool.not_eq_true', List.isEmpty_eq_false_iff, and_comm]

theorem mem_childrenOf {views : List ItemView} {ref child : Bytes} (hRef : ref ≠ []) :
    child ∈ childrenOf views ref ↔ ∃ view ∈ views, view.selfRef = ref ∧ child ∈ view.children := by
  rw [childrenOf, List.mem_flatMap]
  constructor
  · rintro ⟨view, hView, hChild⟩
    rw [List.mem_filter, Bool.and_eq_true, beq_iff_eq] at hView
    exact ⟨view, hView.1, hView.2.2, hChild⟩
  · rintro ⟨view, hView, rfl, hChild⟩
    refine ⟨view, List.mem_filter.mpr ⟨hView, ?_⟩, hChild⟩
    rw [Bool.and_eq_true, beq_iff_eq, Bool.not_eq_true', List.isEmpty_eq_false_iff]
    exact ⟨hRef, rfl⟩

theorem linkErrors_eq_nil {views : List ItemView} {view : ItemView} :
    linkErrors views view = [] ↔
      (∀ child ∈ view.children, child ∈ refs views) ∧
        (view.parentRef ≠ [] →
          ∃ parent ∈ views, parent.selfRef = view.parentRef ∧ view.selfRef ∈ parent.children) := by
  rw [linkErrors, List.append_eq_nil_iff, List.map_eq_nil_iff, List.filter_eq_nil_iff]
  refine and_congr (forall₂_congr fun child _ => ?_) ?_
  · rw [Bool.not_eq_true', Bool.not_eq_false, List.contains_iff_mem]
  · by_cases hParent : view.parentRef = []
    · simp [hParent]
    · have hEmpty : view.parentRef.isEmpty = false := List.isEmpty_eq_false_iff.mpr hParent
      rw [hEmpty, forall_prop_of_true hParent, ← mem_childrenOf hParent]
      by_cases hListed : view.selfRef ∈ childrenOf views view.parentRef
      · obtain ⟨parent, hMem, hSame, -⟩ := (mem_childrenOf hParent).mp hListed
        have hResolved : view.parentRef ∈ refs views := mem_refs.mpr ⟨hParent, parent, hMem, hSame⟩
        simp [hListed, hResolved]
      · simp only [Bool.false_eq_true, if_false, hListed, iff_false]
        split
        · simp
        · simp [hListed]

/-- The checker reports nothing exactly about views that are intact. -/
theorem viewErrors_eq_nil {views : List ItemView} : viewErrors views = [] ↔ IntactViews views := by
  rw [viewErrors, List.append_eq_nil_iff, refErrors_eq_nil, List.flatMap_eq_nil_iff]
  constructor
  · rintro ⟨⟨hNamed, hDistinct⟩, hLinks⟩
    refine ⟨fun view hView => (hNamed view hView).1, hDistinct, ?_, ?_⟩
    · intro view hView child hChild
      exact (mem_refs.mp ((linkErrors_eq_nil.mp (hLinks view hView)).1 child hChild)).2
    · intro view hView
      exact (linkErrors_eq_nil.mp (hLinks view hView)).2
  · intro h
    refine ⟨⟨fun view hView => ⟨h.named view hView, List.not_mem_nil⟩, h.distinct⟩, ?_⟩
    intro view hView
    rw [linkErrors_eq_nil]
    refine ⟨fun child hChild => ?_, h.parents view hView⟩
    obtain ⟨other, hOther, rfl⟩ := h.children view hView child hChild
    exact mem_refs.mpr ⟨h.named other hOther, other, hOther, rfl⟩

section Refs

theorem ascii_append (front back : String) : ascii (front ++ back) = ascii front ++ ascii back := by
  rw [ascii, String.toList_append, List.map_append, ascii, ascii]

/-- Digits come back from their bytes. -/
theorem ascii_toString_injective {left right : Nat} (h : ascii (toString left) = ascii (toString right)) :
    left = right := by
  have hDecimal : ∀ n : Nat, ascii (toString n) = StdText.decimal n := by
    intro n
    rw [ascii, Nat.toString_eq_repr, Nat.toList_repr, StdText.decimal]
  rw [← StdText.readNat_decimal left, ← hDecimal, h, hDecimal, StdText.readNat_decimal]

theorem itemRef_injective {arena : String} {left right : Nat}
    (h : AsrDocumentFold.itemRef arena left = AsrDocumentFold.itemRef arena right) : left = right := by
  rw [AsrDocumentFold.itemRef, AsrDocumentFold.itemRef, ascii_append, ascii_append] at h
  exact ascii_toString_injective (List.append_cancel_left h)

/-- The first letter of the list an item is in. -/
def arenaLetter (ref : Bytes) : Option UInt8 := ref[2]?

theorem arenaLetter_itemRef (place : Nat) :
    arenaLetter (AsrDocumentFold.itemRef "#/texts/" place) = some 116 ∧
      arenaLetter (AsrDocumentFold.itemRef "#/pictures/" place) = some 112 := by
  rw [AsrDocumentFold.itemRef, AsrDocumentFold.itemRef, ascii_append, ascii_append]
  exact ⟨rfl, rfl⟩

/-- The body lists every item once, whatever the order of arrival. -/
theorem childRefs_perm (events : List TranscribeResponse) (texts pictures : Nat) :
    (childRefs events texts pictures).Perm
      ((List.range' texts (finalsOf events).length).map (AsrDocumentFold.itemRef "#/texts/") ++
        (List.range' pictures (keyframesOf events).length).map
          (AsrDocumentFold.itemRef "#/pictures/")) := by
  induction events generalizing texts pictures with
  | nil => exact .refl _
  | cons event events ih =>
    cases event with
    | finalSegment segment => exact (ih (texts + 1) pictures).cons _
    | keyframe frame => exact ((ih texts (pictures + 1)).cons _).trans List.perm_middle.symm
    | mediaInfo | partialSegment | complete | document | notSet => exact ih texts pictures

end Refs

section Fold

open AsrDocumentFold (FoldCall openEvents applyAll create itemRef mediaOf)

variable {model version : Bytes} {options : FoldOptions} {calls : List FoldCall} {fold : AsrDocumentFold}

theorem map_mapIdx_place {α β γ : Type} {build : Nat → α → β} {view : β → γ} {place : Nat → γ}
    (h : ∀ index item, view (build index item) = place index) (items : List α) :
    (items.mapIdx build).map view = (List.range' 0 items.length).map place := by
  apply List.ext_getElem
  · simp
  · intro index _ _
    simp [h]

/-- The views of a folded document: two roots, and items whose parent is the body. -/
theorem views_eq (h : (create model version options).Holds calls fold) :
    fold.document.views =
      ⟨ascii "#/body", [], childRefs (openEvents calls) 0 0⟩ :: ⟨ascii "#/furniture", [], []⟩ ::
        ((List.range' 0 (finalsOf (openEvents calls)).length).map (itemRef "#/texts/") ++
          (List.range' 0 (keyframesOf (openEvents calls)).length).map
            (itemRef "#/pictures/")).map fun ref => ⟨ref, ascii "#/body", []⟩ := by
  have hBody : fold.document.body.view = ⟨ascii "#/body", [], childRefs (openEvents calls) 0 0⟩ := by
    rw [GroupItem.view, h.roots.1, h.children]
    rfl
  have hFurniture : fold.document.furniture.view = ⟨ascii "#/furniture", [], []⟩ := by
    rw [h.roots.2]
    rfl
  have hTexts : fold.document.texts.map TextItemBase.view =
      ((List.range' 0 (finalsOf (openEvents calls)).length).map (itemRef "#/texts/")).map
        fun ref => ⟨ref, ascii "#/body", []⟩ := by
    rw [h.texts, List.map_map]
    apply map_mapIdx_place
    exact fun _ _ => rfl
  have hPictures : fold.document.pictures.map PictureItem.view =
      ((List.range' 0 (keyframesOf (openEvents calls)).length).map (itemRef "#/pictures/")).map
        fun ref => ⟨ref, ascii "#/body", []⟩ := by
    rw [h.pictures, List.map_map]
    apply map_mapIdx_place
    exact fun _ _ => rfl
  rw [Document.views, hBody, hFurniture, hTexts, hPictures, List.map_append]

theorem arenaLetter_items (texts pictures : Nat) :
    (∀ ref ∈ (List.range' 0 texts).map (itemRef "#/texts/"), arenaLetter ref = some 116) ∧
      ∀ ref ∈ (List.range' 0 pictures).map (itemRef "#/pictures/"), arenaLetter ref = some 112 := by
  constructor
  · intro ref hRef
    obtain ⟨place, -, rfl⟩ := List.mem_map.mp hRef
    exact (arenaLetter_itemRef place).1
  · intro ref hRef
    obtain ⟨place, -, rfl⟩ := List.mem_map.mp hRef
    exact (arenaLetter_itemRef place).2

theorem not_mem_items {texts pictures : Nat} {ref : Bytes} (hText : arenaLetter ref ≠ some 116)
    (hPicture : arenaLetter ref ≠ some 112) :
    ref ∉ (List.range' 0 texts).map (itemRef "#/texts/") ++
      (List.range' 0 pictures).map (itemRef "#/pictures/") := by
  obtain ⟨hTexts, hPictures⟩ := arenaLetter_items texts pictures
  intro hMem
  rcases List.mem_append.mp hMem with hMem | hMem
  · exact hText (hTexts ref hMem)
  · exact hPicture (hPictures ref hMem)

theorem items_nodup (texts pictures : Nat) :
    ([] :: ascii "#/body" :: ascii "#/furniture" ::
      ((List.range' 0 texts).map (itemRef "#/texts/") ++
        (List.range' 0 pictures).map (itemRef "#/pictures/"))).Nodup := by
  obtain ⟨hTexts, hPictures⟩ := arenaLetter_items texts pictures
  rw [List.nodup_cons, List.nodup_cons, List.nodup_cons, List.mem_cons, not_or, List.mem_cons, not_or,
    List.mem_cons, not_or]
  refine ⟨⟨by decide, by decide, not_mem_items (by decide) (by decide)⟩,
    ⟨by decide, not_mem_items (by decide) (by decide)⟩, not_mem_items (by decide) (by decide), ?_⟩
  apply List.Nodup.append
  · exact List.Nodup.map (fun _ _ h => itemRef_injective h) List.nodup_range'
  · exact List.Nodup.map (fun _ _ h => itemRef_injective h) List.nodup_range'
  · intro ref hText hPicture
    have hLetter := (hTexts ref hText).symm.trans (hPictures ref hPicture)
    cases hLetter

theorem intactViews_of_holds (h : (create model version options).Holds calls fold) :
    IntactViews fold.document.views := by
  have hPerm := childRefs_perm (openEvents calls) 0 0
  have hNodup := items_nodup (finalsOf (openEvents calls)).length (keyframesOf (openEvents calls)).length
  rw [views_eq h]
  generalize (List.range' 0 (finalsOf (openEvents calls)).length).map (itemRef "#/texts/") ++
    (List.range' 0 (keyframesOf (openEvents calls)).length).map (itemRef "#/pictures/") = items at *
  have hRefs : (items.map fun ref => (⟨ref, ascii "#/body", []⟩ : ItemView)).map ItemView.selfRef = items := by
    rw [List.map_map]
    exact List.map_id items
  obtain ⟨hNamed, hNodup⟩ := List.nodup_cons.mp hNodup
  constructor
  · intro view hView hEmpty
    apply hNamed
    rw [← hEmpty, ← hRefs]
    exact List.mem_map_of_mem (f := ItemView.selfRef) hView
  · rw [List.map_cons, List.map_cons, hRefs]
    exact hNodup
  · rw [List.forall_mem_cons, List.forall_mem_cons, List.forall_mem_map]
    refine ⟨fun child hChild => ?_, List.forall_mem_nil _, fun _ _ => List.forall_mem_nil _⟩
    refine ⟨⟨child, ascii "#/body", []⟩, ?_, rfl⟩
    apply List.mem_cons_of_mem
    apply List.mem_cons_of_mem
    exact List.mem_map_of_mem (hPerm.mem_iff.mp hChild)
  · rw [List.forall_mem_cons, List.forall_mem_cons, List.forall_mem_map]
    refine ⟨fun h => absurd rfl h, fun h => absurd rfl h, fun ref hRef _ => ?_⟩
    exact ⟨_, List.mem_cons_self, rfl, hPerm.mem_iff.mpr hRef⟩

end Fold

section Runs

open AsrDocumentFold (FoldCall openEvents create itemRef mediaOf)

variable (parse : Bytes → Option Nat)

/-- After its trailer the fold only takes the name of the source. -/
theorem applyAll_closed (fold : AsrDocumentFold) (hClosed : fold.finished = true) (calls : List FoldCall) :
    (fold.applyAll parse calls).finished = true ∧
      (fold.applyAll parse calls).document =
        { fold.document with
          name := (fold.applyAll parse calls).document.name
          origin := (fold.applyAll parse calls).document.origin } := by
  induction calls generalizing fold with
  | nil => exact ⟨hClosed, rfl⟩
  | cons call calls ih =>
    cases call with
    | setSource origin => exact ih (fold.setSource origin) hClosed
    | event event =>
      have hSame : fold.apply parse (.event event) = fold := by
        rw [AsrDocumentFold.apply, AsrDocumentFold.consume.eq_def, hClosed]
        rfl
      have hStep : fold.applyAll parse (.event event :: calls) = fold.applyAll parse calls := by
        rw [AsrDocumentFold.applyAll, List.foldl_cons, hSame]
        rfl
      rw [hStep]
      exact ih fold hClosed

end Runs

end GrpcAsr.Asr
