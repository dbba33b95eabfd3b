/-
# The row of tabs

`classes/Tabs` and `classes/TabsItemView`. An item has two labels, of which it
draws one: a change of color writes the other one and swaps them, and is
skipped where the background has the color already. Colors are those of the
gray scale, and a number is a rational; an animation is what it ends in, and
lengths are in widths of an item.

* `Tabs.Legible`: the text of an item stands out from its background, if the
  item has not turned white.
* `Tabs.Pressed`: only the selected item turns white, while it is touched.
* `Tabs.Settled`: an item that nobody touches is plain, unless it is selected,
  and the selected one has a dark text.
* `Tabs.Visible`: the selected item stands in one of the three columns.
-/
import Mathlib.Data.Rat.Defs
import Mathlib.Algebra.Order.Ring.Rat
import Mathlib.Tactic.Linarith
import Mathlib.Tactic.NormNum

namespace Horo
namespace TabsRow

/-! ### An item -/

/-- A `UIColor`. -/
structure Color where
  white : ℚ
  alpha : ℚ
  deriving DecidableEq, Repr

namespace Color

def whiteColor : Color := ⟨1, 1⟩

def blackColor : Color := ⟨0, 1⟩

def grayColor : Color := ⟨1 / 2, 1⟩

def clearColor : Color := ⟨0, 0⟩

def colorWithAlphaComponent (c : Color) (alpha : ℚ) : Color := { c with alpha }

end Color

structure Label where
  text : List Char
  textColor : Color
  alpha : ℚ
  deriving DecidableEq, Repr

structure TabsItemView where
  labelFirst : Label
  labelSecond : Label
  backgroundColor : Color
  /-- The touch by its number. -/
  activeTouch : Option ℕ
  deriving DecidableEq, Repr

def kHighlightedItemViewAlpha : ℚ := 1 / 2

def kSemiHighlightedItemViewAlpha : ℚ := kHighlightedItemViewAlpha / 2

inductive Direction
  | forwardToLeft
  | backToRight
  deriving DecidableEq, Repr

namespace TabsItemView

/-- The view of `TabsItemView.xib`, with a title. -/
def loadNib (title : List Char) : TabsItemView where
  labelFirst := ⟨title, .whiteColor, 1⟩
  labelSecond := ⟨title, .whiteColor, 0⟩
  backgroundColor := .clearColor
  activeTouch := none

variable (v : TabsItemView)

def visibleLabel : Label := if v.labelFirst.alpha = 0 then v.labelSecond else v.labelFirst

/-- A change of the visible and of the invisible label. -/
def setLabels (visible invisible : Label → Label) : TabsItemView :=
  if v.labelFirst.alpha = 0 then
    { v with labelFirst := invisible v.labelFirst, labelSecond := visible v.labelSecond }
  else { v with labelFirst := visible v.labelFirst, labelSecond := invisible v.labelSecond }

/-- `colorBlock`. -/
def labelColor (highlighted : Bool) : Color := if highlighted then .blackColor else .whiteColor

def itemColor (highlighted : Bool) : Color :=
  if highlighted then Color.whiteColor.colorWithAlphaComponent kHighlightedItemViewAlpha else .clearColor

def setItemHighlighted (highlighted syncLabelColor : Bool) : TabsItemView :=
  if v.backgroundColor = itemColor highlighted then v
  else
    { v with backgroundColor := itemColor highlighted }.setLabels
      (fun visibleLabel =>
        { visibleLabel with
          textColor := if syncLabelColor then visibleLabel.textColor else labelColor highlighted
          alpha := 0 })
      (fun invisibleLabel => { invisibleLabel with textColor := labelColor highlighted, alpha := 1 })

/-- The background of an item that is half highlighted. -/
def semiColor : Color := Color.whiteColor.colorWithAlphaComponent kSemiHighlightedItemViewAlpha

def setItemSemiHighlighted : TabsItemView :=
  if v.backgroundColor = semiColor then v
  else
    { v with backgroundColor := semiColor }.setLabels
      (fun visibleLabel => { visibleLabel with textColor := .grayColor, alpha := 0 })
      (fun invisibleLabel => { invisibleLabel with textColor := .grayColor, alpha := 1 })

def setOverSelection : TabsItemView := { v with backgroundColor := .whiteColor }

/-- The direction is not used. -/
def animateSelection (completed : ℚ) (selected : Bool) : TabsItemView :=
  let newAlpha :=
    if selected then kHighlightedItemViewAlpha - kHighlightedItemViewAlpha * completed
    else kHighlightedItemViewAlpha * completed
  let fontColorValue := if selected then completed else 1 - completed
  { v with backgroundColor := Color.whiteColor.colorWithAlphaComponent newAlpha }.setLabels
    (fun visibleLabel => { visibleLabel with textColor := ⟨fontColorValue, 1⟩ }) id

end TabsItemView

/-! ### The row -/

inductive TabItemViewTouchState
  | begin
  | cancelled
  | finished
  deriving DecidableEq, Repr

inductive TabsAnimationsPreferences
  | full
  | frameOnly
  | none
  deriving DecidableEq, Repr

/-- `raised` is set by the exception of an index that is out of bounds. -/
structure Tabs where
  titles : List (List Char)
  itemViews : List TabsItemView
  leftItemIndex : ℤ
  selectedIndex : ℕ
  xDelta : ℚ
  raised : Bool
  deriving DecidableEq, Repr

/-- The arguments of `tabsItemViewSelected`, if it is called. -/
abbrev Selection := Option (ℕ × ℕ)

def kTabsCount : ℤ := 3

/-- `awakeFromNib`. -/
def awakeFromNib : Tabs where
  titles := []
  itemViews := []
  leftItemIndex := 0
  selectedIndex := 0
  xDelta := 0
  raised := false

namespace Tabs

variable (t : Tabs)

def setTitles (titles : List (List Char)) : Tabs :=
  { t with
    titles
    selectedIndex := if t.selectedIndex ≥ titles.length then 0 else t.selectedIndex
    itemViews := titles.map .loadNib }

/-- Where an item is looked up that is not there. -/
def raise : Tabs := { t with raised := true }

def cancelItemSemiSelection (itemIndex : ℕ) : Tabs :=
  if itemIndex < t.itemViews.length ∧ t.selectedIndex < t.itemViews.length then
    { t with
      itemViews := t.itemViews.mapIdx fun idx itemView =>
        if idx = t.selectedIndex then itemView.setItemHighlighted true true
        else if idx = itemIndex then itemView.setItemHighlighted false true
        else itemView }
  else t.raise

def setItemSemiSelected (itemIndex : ℕ) : Tabs :=
  if itemIndex < t.itemViews.length ∧ t.selectedIndex < t.itemViews.length then
    { t with
      itemViews := t.itemViews.mapIdx fun idx itemView =>
        if itemIndex = t.selectedIndex then
          if idx = itemIndex then itemView.setOverSelection else itemView
        else if idx = itemIndex ∨ idx = t.selectedIndex then itemView.setItemSemiHighlighted
        else itemView }
  else t.raise

/-- The index of the item in the first column; `maximumLeftIndex` is less than
0 when there are less than three items. -/
def leftIndex (count itemIndex : ℕ) : ℤ :=
  let maximumLeftIndex := (count : ℤ) - kTabsCount
  let leftItemIndex := if (itemIndex : ℤ) - 1 < 0 then 0 else (itemIndex : ℤ) - 1
  if leftItemIndex > maximumLeftIndex then maximumLeftIndex else leftItemIndex

/-- `setItemSelected:animation:withNotify:`; the animation makes no difference
to what it ends in. -/
def setItemSelected (itemIndex : ℕ) (withNotify : Bool) : Tabs × Selection :=
  if itemIndex < t.itemViews.length then
    ({ t with
        itemViews := t.itemViews.mapIdx fun idx obj => obj.setItemHighlighted (idx = itemIndex) false
        xDelta := 0
        leftItemIndex := leftIndex t.itemViews.length itemIndex
        selectedIndex := itemIndex },
      if withNotify ∧ t.selectedIndex ≠ itemIndex then some (t.selectedIndex, itemIndex) else none)
  else (t.raise, none)

/-- `setItemSelected:animation:`. -/
def setItemSelectedAnimation (itemIndex : ℕ) (animation : TabsAnimationsPreferences) : Tabs × Selection :=
  t.setItemSelected itemIndex (animation ≠ .frameOnly)

/-- `setItemSelected:animated:`. -/
def setItemSelectedAnimated (itemIndex : ℕ) (animated : Bool) : Tabs × Selection :=
  t.setItemSelectedAnimation itemIndex (if animated then .full else .none)

def touchChangedForItemView (index : ℕ) : TabItemViewTouchState → Tabs × Selection
  | .begin => (t.setItemSemiSelected index, none)
  | .cancelled => (t.cancelItemSemiSelection index, none)
  | .finished => t.setItemSelectedAnimated index true

/-- The touch of an item. -/
def setActiveTouch (index : ℕ) (touch : Option ℕ) : Tabs :=
  { t with
    itemViews := t.itemViews.mapIdx fun idx itemView =>
      if idx = index then { itemView with activeTouch := touch } else itemView }

/-- `executeCallback:` of the item. -/
def executeCallback (index : ℕ) (state : TabItemViewTouchState) : Tabs × Selection :=
  let (t, selection) := t.touchChangedForItemView index state
  (if state = .begin then t else t.setActiveTouch index none, selection)

/-- `gestureRecognizer:shouldReceiveTouch:`. -/
def shouldReceiveTouch (index touch : ℕ) : Tabs :=
  (t.executeCallback index .begin).1.setActiveTouch index (some touch)

/-- `touchesEnded:withEvent:` and `touchesCancelled:withEvent:`. -/
def cancelTouches (index : ℕ) (touches : List ℕ) : Tabs :=
  match t.itemViews[index]?.bind (·.activeTouch) with
  | none => t
  | some touch => if touch ∈ touches then (t.executeCallback index .cancelled).1 else t

def tapped (index : ℕ) : Tabs × Selection := t.executeCallback index .finished

/-- `previousItem` or `nextItem`, by its index. -/
def neighbour : Direction → Option ℕ
  | .forwardToLeft => if t.selectedIndex + 1 < t.itemViews.length then some (t.selectedIndex + 1) else none
  | .backToRight => if t.selectedIndex ≠ 0 then some (t.selectedIndex - 1) else none

def animateSelection (direction : Direction) (completed : ℚ) : Tabs :=
  if t.selectedIndex < t.itemViews.length then
    match t.neighbour direction with
    | none => t
    | some nextIndex =>
      let count := t.titles.length
      { t with
        itemViews := t.itemViews.mapIdx fun idx itemView =>
          if idx = t.selectedIndex then itemView.animateSelection completed true
          else if idx = nextIndex then itemView.animateSelection completed false
          else itemView
        xDelta := match direction with
          | .forwardToLeft =>
            if t.selectedIndex = 0 ∨ t.selectedIndex + 1 = count ∨ t.selectedIndex + 2 = count then 0
            else -completed
          | .backToRight => if t.selectedIndex = 1 ∨ t.selectedIndex + 1 = count then 0 else completed }
  else t.raise

end Tabs

/-! ### The items keep their text legible -/

namespace TabsItemView

/-- The text stands out from the background: from white on a plain item to
black on a highlighted one. -/
def Inked (v : TabsItemView) : Prop :=
  v.visibleLabel.textColor.white = 1 - 2 * v.backgroundColor.alpha

/-- One label is drawn, and it stands out unless the item is white. An item that
turns white has the ink of before. -/
structure Legible (v : TabsItemView) : Prop where
  one : v.labelFirst.alpha = 1 ∧ v.labelSecond.alpha = 0 ∨ v.labelFirst.alpha = 0 ∧ v.labelSecond.alpha = 1
  ink : v.backgroundColor = .whiteColor ∨ v.Inked

/-- The text can be read on white. -/
def Dark (v : TabsItemView) : Prop := v.visibleLabel.textColor.white ≤ Color.grayColor.white

theorem loadNib_legible (title : List Char) : (loadNib title).Legible where
  one := .inl ⟨rfl, rfl⟩
  ink := .inr (by norm_num [Inked, loadNib, visibleLabel, Color.whiteColor, Color.clearColor])

variable {v : TabsItemView}

/-- The labels are swapped, and the one that comes is written in the ink of the
background. -/
theorem Legible.swap (h : v.Legible) {color ink : Color} (ink' : Label → Color)
    (hink : ink.white = 1 - 2 * color.alpha) :
    ({ v with backgroundColor := color }.setLabels
      (fun visibleLabel => { visibleLabel with textColor := ink' visibleLabel, alpha := 0 })
      (fun invisibleLabel => { invisibleLabel with textColor := ink, alpha := 1 })).Legible := by
  rcases h.one with ⟨hfirst, hsecond⟩ | ⟨hfirst, hsecond⟩
  · have hne : v.labelFirst.alpha ≠ 0 := by
      rw [hfirst]
      exact one_ne_zero
    rw [setLabels, if_neg hne]
    exact ⟨.inr ⟨rfl, rfl⟩, .inr hink⟩
  · rw [setLabels, if_pos hfirst]
    refine ⟨.inl ⟨rfl, rfl⟩, .inr ?_⟩
    rw [Inked, visibleLabel, if_neg one_ne_zero]
    exact hink

theorem Legible.setItemHighlighted (h : v.Legible) (highlighted : Bool) {syncLabelColor : Bool} :
    (v.setItemHighlighted highlighted syncLabelColor).Legible := by
  unfold TabsItemView.setItemHighlighted
  split
  · exact h
  · apply h.swap fun label => if syncLabelColor then label.textColor else labelColor highlighted
    cases highlighted <;>
      norm_num [labelColor, itemColor, Color.whiteColor, Color.blackColor, Color.clearColor,
        Color.colorWithAlphaComponent, kHighlightedItemViewAlpha]

theorem Legible.setItemSemiHighlighted (h : v.Legible) : v.setItemSemiHighlighted.Legible := by
  unfold TabsItemView.setItemSemiHighlighted
  split
  · exact h
  · apply h.swap fun _ => .grayColor
    norm_num [semiColor, Color.whiteColor, Color.grayColor, Color.colorWithAlphaComponent,
      kSemiHighlightedItemViewAlpha, kHighlightedItemViewAlpha]

theorem Legible.setOverSelection (h : v.Legible) : v.setOverSelection.Legible := ⟨h.one, .inl rfl⟩

/-! ### Backgrounds and touches -/

@[simp] theorem backgroundColor_setLabels (visible invisible : Label → Label) :
    (v.setLabels visible invisible).backgroundColor = v.backgroundColor := by
  unfold setLabels
  split <;> rfl

@[simp] theorem backgroundColor_setItemHighlighted (highlighted syncLabelColor : Bool) :
    (v.setItemHighlighted highlighted syncLabelColor).backgroundColor = itemColor highlighted := by
  unfold setItemHighlighted
  split
  · assumption
  · rw [backgroundColor_setLabels]

@[simp] theorem backgroundColor_setItemSemiHighlighted :
    v.setItemSemiHighlighted.backgroundColor = semiColor := by
  unfold setItemSemiHighlighted
  split
  · assumption
  · rw [backgroundColor_setLabels]

/-! ### Inks -/

/-- Of an item that is not white. -/
theorem Legible.inked (h : v.Legible) (hne : v.backgroundColor ≠ .whiteColor) : v.Inked :=
  h.ink.resolve_left hne

theorem Legible.inked_of_itemColor (h : v.Legible) {highlighted : Bool}
    (hcolor : v.backgroundColor = itemColor highlighted) : v.Inked := by
  apply h.inked
  rw [hcolor]
  cases highlighted <;>
    norm_num [itemColor, Color.whiteColor, Color.clearColor, Color.colorWithAlphaComponent,
      kHighlightedItemViewAlpha]

theorem Legible.inked_of_semiColor (h : v.Legible) (hcolor : v.backgroundColor = semiColor) : v.Inked := by
  apply h.inked
  rw [hcolor]
  norm_num [semiColor, Color.whiteColor, Color.colorWithAlphaComponent, kSemiHighlightedItemViewAlpha,
    kHighlightedItemViewAlpha]

theorem Legible.dark_of_itemColor (h : v.Legible) (hcolor : v.backgroundColor = itemColor true) :
    v.Dark := by
  have hink : v.visibleLabel.textColor.white = 1 - 2 * v.backgroundColor.alpha :=
    h.inked_of_itemColor hcolor
  rw [Dark, hink, hcolor]
  norm_num [itemColor, Color.whiteColor, Color.grayColor, Color.colorWithAlphaComponent,
    kHighlightedItemViewAlpha]

theorem Legible.dark_of_semiColor (h : v.Legible) (hcolor : v.backgroundColor = semiColor) : v.Dark := by
  have hink : v.visibleLabel.textColor.white = 1 - 2 * v.backgroundColor.alpha :=
    h.inked_of_semiColor hcolor
  rw [Dark, hink, hcolor]
  norm_num [semiColor, Color.whiteColor, Color.grayColor, Color.colorWithAlphaComponent,
    kSemiHighlightedItemViewAlpha, kHighlightedItemViewAlpha]

/-- A drag writes its own ink. -/
theorem Legible.inked_animateSelection (h : v.Legible) (completed : ℚ) (selected : Bool) :
    (v.animateSelection completed selected).Inked := by
  have hink : (if selected then completed else 1 - completed) =
      1 - 2 * (if selected then kHighlightedItemViewAlpha - kHighlightedItemViewAlpha * completed
        else kHighlightedItemViewAlpha * completed) := by
    unfold kHighlightedItemViewAlpha
    cases selected
    · simp only [Bool.false_eq_true, if_false]
      linarith
    · simp only [if_true]
      linarith
  unfold TabsItemView.animateSelection
  rcases h.one with ⟨hfirst, -⟩ | ⟨hfirst, -⟩
  · have hne : v.labelFirst.alpha ≠ 0 := by
      rw [hfirst]
      exact one_ne_zero
    rw [setLabels, if_neg hne]
    simp only [Inked, visibleLabel, id_eq]
    rw [if_neg hne]
    exact hink
  · rw [setLabels, if_pos hfirst]
    simp only [Inked, visibleLabel, id_eq]
    rw [if_pos hfirst]
    exact hink

theorem Legible.animateSelection (h : v.Legible) (completed : ℚ) (selected : Bool) :
    (v.animateSelection completed selected).Legible := by
  refine ⟨?_, .inr (h.inked_animateSelection completed selected)⟩
  unfold TabsItemView.animateSelection
  by_cases hfirst : v.labelFirst.alpha = 0
  · rw [setLabels, if_pos hfirst]
    exact h.one
  · rw [setLabels, if_neg hfirst]
    exact h.one

end TabsItemView

/-! ### The row -/

namespace Tabs

variable {t : Tabs}

/-- All but the items themselves, and how far they are dragged, is the same. -/
structure Kept (t t' : Tabs) : Prop where
  titles : t'.titles = t.titles
  length : t'.itemViews.length = t.itemViews.length
  selectedIndex : t'.selectedIndex = t.selectedIndex
  leftItemIndex : t'.leftItemIndex = t.leftItemIndex
  raised : t'.raised = t.raised

theorem Kept.refl (t : Tabs) : Kept t t := ⟨rfl, rfl, rfl, rfl, rfl⟩

theorem Kept.trans {t' t'' : Tabs} (h : Kept t t') (h' : Kept t' t'') : Kept t t'' where
  titles := h'.titles.trans h.titles
  length := h'.length.trans h.length
  selectedIndex := h'.selectedIndex.trans h.selectedIndex
  leftItemIndex := h'.leftItemIndex.trans h.leftItemIndex
  raised := h'.raised.trans h.raised

/-- The items are changed one by one. -/
theorem kept_mapIdx (f : ℕ → TabsItemView → TabsItemView) (xDelta : ℚ) :
    Kept t { t with itemViews := t.itemViews.mapIdx f, xDelta } :=
  ⟨rfl, List.length_mapIdx, rfl, rfl, rfl⟩

theorem setActiveTouch_kept (index : ℕ) (touch : Option ℕ) : Kept t (t.setActiveTouch index touch) :=
  kept_mapIdx _ t.xDelta

theorem setItemSemiSelected_kept {index : ℕ} (hindex : index < t.itemViews.length)
    (hselected : t.selectedIndex < t.itemViews.length) : Kept t (t.setItemSemiSelected index) := by
  rw [setItemSemiSelected, if_pos ⟨hindex, hselected⟩]
  exact kept_mapIdx _ t.xDelta

theorem cancelItemSemiSelection_kept {index : ℕ} (hindex : index < t.itemViews.length)
    (hselected : t.selectedIndex < t.itemViews.length) : Kept t (t.cancelItemSemiSelection index) := by
  rw [cancelItemSemiSelection, if_pos ⟨hindex, hselected⟩]
  exact kept_mapIdx _ t.xDelta

theorem shouldReceiveTouch_kept {index : ℕ} (touch : ℕ) (hindex : index < t.itemViews.length)
    (hselected : t.selectedIndex < t.itemViews.length) : Kept t (t.shouldReceiveTouch index touch) :=
  (setItemSemiSelected_kept hindex hselected).trans (setActiveTouch_kept index (some touch))

/-- A touch that ends is that of the item, or nothing happens. -/
theorem cancelTouches_cases (t : Tabs) (index : ℕ) (touches : List ℕ) :
    t.cancelTouches index touches = t ∨
      t.cancelTouches index touches = (t.cancelItemSemiSelection index).setActiveTouch index none := by
  unfold cancelTouches
  split
  · exact .inl rfl
  · split
    · exact .inr rfl
    · exact .inl rfl

theorem cancelTouches_kept {index : ℕ} (touches : List ℕ) (hindex : index < t.itemViews.length)
    (hselected : t.selectedIndex < t.itemViews.length) : Kept t (t.cancelTouches index touches) := by
  rcases cancelTouches_cases t index touches with heq | heq
  · rw [heq]
    exact .refl t
  · rw [heq]
    exact (cancelItemSemiSelection_kept hindex hselected).trans (setActiveTouch_kept index none)

theorem animateSelection_kept (direction : Direction) (completed : ℚ)
    (hselected : t.selectedIndex < t.itemViews.length) :
    Kept t (t.animateSelection direction completed) := by
  rw [animateSelection, if_pos hselected]
  split
  · exact .refl t
  · exact kept_mapIdx _ _

/-- What a selection leaves. -/
structure Chosen (t t' : Tabs) (itemIndex : ℕ) : Prop where
  titles : t'.titles = t.titles
  length : t'.itemViews.length = t.itemViews.length
  selectedIndex : t'.selectedIndex = itemIndex
  leftItemIndex : t'.leftItemIndex = leftIndex t.itemViews.length itemIndex
  xDelta : t'.xDelta = 0
  raised : t'.raised = t.raised
  /-- Exactly the selected item is highlighted. -/
  highlighted : ∀ i v, t'.itemViews[i]? = some v →
    v.backgroundColor = TabsItemView.itemColor (i = itemIndex)

theorem setItemSelected_chosen {itemIndex : ℕ} (withNotify : Bool) (h : itemIndex < t.itemViews.length) :
    Chosen t (t.setItemSelected itemIndex withNotify).1 itemIndex := by
  rw [setItemSelected, if_pos h]
  refine ⟨rfl, List.length_mapIdx, rfl, rfl, rfl, rfl, fun i v hv => ?_⟩
  rw [List.getElem?_mapIdx] at hv
  obtain ⟨u, -, rfl⟩ := Option.map_eq_some_iff.mp hv
  rw [TabsItemView.backgroundColor_setItemHighlighted]

theorem tapped_chosen {itemIndex : ℕ} (h : itemIndex < t.itemViews.length) :
    Chosen t (t.tapped itemIndex).1 itemIndex := by
  have hchosen := setItemSelected_chosen (t := t) true h
  have hkept := setActiveTouch_kept (t := (t.setItemSelected itemIndex true).1) itemIndex none
  refine ⟨hkept.titles.trans hchosen.titles, hkept.length.trans hchosen.length,
    hkept.selectedIndex.trans hchosen.selectedIndex, hkept.leftItemIndex.trans hchosen.leftItemIndex,
    hchosen.xDelta, hkept.raised.trans hchosen.raised, fun i v hv => ?_⟩
  change ((t.setItemSelected itemIndex true).1.setActiveTouch itemIndex none).itemViews[i]? = some v at hv
  rw [setActiveTouch, List.getElem?_mapIdx] at hv
  obtain ⟨u, hu, rfl⟩ := Option.map_eq_some_iff.mp hv
  rw [← hchosen.highlighted i u hu]
  split <;> rfl

theorem tapped_selection {itemIndex : ℕ} (h : itemIndex < t.itemViews.length) :
    (t.tapped itemIndex).2 =
      if t.selectedIndex ≠ itemIndex then some (t.selectedIndex, itemIndex) else none := by
  change (t.setItemSelected itemIndex true).2 = _
  rw [setItemSelected, if_pos h]
  simp only [true_and]

/-! ### Every item is legible -/

/-- The items that are drawn so that their text can be read. -/
def Legible (t : Tabs) : Prop := ∀ v ∈ t.itemViews, v.Legible

/-- What is done to each item keeps it. -/
theorem Legible.mapIdx (h : t.Legible) {t' : Tabs} {f : ℕ → TabsItemView → TabsItemView}
    (hitems : t'.itemViews = t.itemViews.mapIdx f) (hf : ∀ i v, v.Legible → (f i v).Legible) :
    t'.Legible := by
  intro v hv
  rw [hitems] at hv
  obtain ⟨i, hi, rfl⟩ := List.mem_mapIdx.mp hv
  exact hf i _ (h _ (List.getElem_mem hi))

theorem setTitles_legible (t : Tabs) (titles : List (List Char)) : (t.setTitles titles).Legible := by
  intro v hv
  obtain ⟨title, -, rfl⟩ := List.mem_map.mp hv
  exact TabsItemView.loadNib_legible title

theorem Legible.setActiveTouch (h : t.Legible) (index : ℕ) (touch : Option ℕ) :
    (t.setActiveTouch index touch).Legible := by
  refine h.mapIdx rfl fun i v hv => ?_
  split
  · exact ⟨hv.one, hv.ink⟩
  · exact hv

theorem Legible.setItemSelected (h : t.Legible) (itemIndex : ℕ) (withNotify : Bool) :
    (t.setItemSelected itemIndex withNotify).1.Legible := by
  unfold Tabs.setItemSelected
  split
  · exact h.mapIdx rfl fun i v hv => hv.setItemHighlighted _
  · exact h

theorem Legible.tapped (h : t.Legible) (index : ℕ) : (t.tapped index).1.Legible :=
  (h.setItemSelected index true).setActiveTouch index none

theorem Legible.shouldReceiveTouch (h : t.Legible) (index touch : ℕ) :
    (t.shouldReceiveTouch index touch).Legible := by
  refine Legible.setActiveTouch (t := t.setItemSemiSelected index) ?_ index (some touch)
  unfold Tabs.setItemSemiSelected
  split
  · refine h.mapIdx rfl fun i v hv => ?_
    split
    · split
      · exact hv.setOverSelection
      · exact hv
    · split
      · exact hv.setItemSemiHighlighted
      · exact hv
  · exact h

theorem Legible.cancelTouches (h : t.Legible) (index : ℕ) (touches : List ℕ) :
    (t.cancelTouches index touches).Legible := by
  rcases cancelTouches_cases t index touches with heq | heq
  · rw [heq]
    exact h
  · rw [heq]
    refine Legible.setActiveTouch (t := t.cancelItemSemiSelection index) ?_ index none
    unfold Tabs.cancelItemSemiSelection
    split
    · refine h.mapIdx rfl fun i v hv => ?_
      split
      · exact hv.setItemHighlighted true
      · split
        · exact hv.setItemHighlighted false
        · exact hv
    · exact h

theorem Legible.animateSelection (h : t.Legible) (direction : Direction) (completed : ℚ) :
    (t.animateSelection direction completed).Legible := by
  unfold Tabs.animateSelection
  split
  · split
    · exact h
    · refine h.mapIdx rfl fun i v hv => ?_
      split
      · exact hv.animateSelection completed true
      · split
        · exact hv.animateSelection completed false
        · exact hv
  · exact h

/-! ### What a touch does to an item -/

/-- A touch: the selected item turns white if it is the one that is touched, or
else both are half highlighted. -/
theorem shouldReceiveTouch_item {index touch : ℕ} (hindex : index < t.itemViews.length)
    (hselected : t.selectedIndex < t.itemViews.length) {i : ℕ} {v : TabsItemView}
    (hv : (t.shouldReceiveTouch index touch).itemViews[i]? = some v) :
    (i = index → v.activeTouch = some touch) ∧ ∃ w, t.itemViews[i]? = some w ∧
      (i = index ∧ i = t.selectedIndex ∧ v.visibleLabel = w.visibleLabel ∨
        (i = index ∨ i = t.selectedIndex) ∧ v.backgroundColor = TabsItemView.semiColor ∨
        i ≠ index ∧ i ≠ t.selectedIndex ∧ v = w ∨
        i ≠ index ∧ index = t.selectedIndex ∧ v = w) := by
  change ((t.setItemSemiSelected index).setActiveTouch index (some touch)).itemViews[i]? = some v at hv
  rw [setActiveTouch, List.getElem?_mapIdx] at hv
  obtain ⟨u, hu, rfl⟩ := Option.map_eq_some_iff.mp hv
  rw [setItemSemiSelected, if_pos ⟨hindex, hselected⟩, List.getElem?_mapIdx] at hu
  obtain ⟨w, hw, rfl⟩ := Option.map_eq_some_iff.mp hu
  refine ⟨fun hi => by rw [if_pos hi], w, hw, ?_⟩
  by_cases hi : i = index
  · rw [if_pos hi]
    by_cases hsel : index = t.selectedIndex
    · rw [if_pos hsel, if_pos hi]
      exact .inl ⟨hi, hi.trans hsel, rfl⟩
    · rw [if_neg hsel, if_pos (Or.inl hi)]
      exact .inr (.inl ⟨.inl hi, TabsItemView.backgroundColor_setItemSemiHighlighted⟩)
  · rw [if_neg hi]
    by_cases hsel : index = t.selectedIndex
    · rw [if_pos hsel, if_neg hi]
      exact .inr (.inr (.inr ⟨hi, hsel, rfl⟩))
    · rw [if_neg hsel]
      by_cases his : i = t.selectedIndex
      · rw [if_pos (Or.inr his)]
        exact .inr (.inl ⟨.inr his, TabsItemView.backgroundColor_setItemSemiHighlighted⟩)
      · rw [if_neg (not_or.mpr ⟨hi, his⟩)]
        exact .inr (.inr (.inl ⟨hi, his, rfl⟩))

/-- The end of a touch: the selected item is highlighted, and the one that was
touched is plain if it is another. -/
theorem cancelItemSemiSelection_item {index : ℕ} (hindex : index < t.itemViews.length)
    (hselected : t.selectedIndex < t.itemViews.length) {i : ℕ} {v : TabsItemView}
    (hv : ((t.cancelItemSemiSelection index).setActiveTouch index none).itemViews[i]? = some v) :
    ∃ w, t.itemViews[i]? = some w ∧
      (i = t.selectedIndex ∧ v.backgroundColor = TabsItemView.itemColor true ∨
        i ≠ t.selectedIndex ∧ v.backgroundColor = TabsItemView.itemColor false ∨
        i ≠ t.selectedIndex ∧ v = w) := by
  rw [setActiveTouch, List.getElem?_mapIdx] at hv
  obtain ⟨u, hu, rfl⟩ := Option.map_eq_some_iff.mp hv
  rw [cancelItemSemiSelection, if_pos ⟨hindex, hselected⟩, List.getElem?_mapIdx] at hu
  obtain ⟨w, hw, rfl⟩ := Option.map_eq_some_iff.mp hu
  have hbackground : ∀ u : TabsItemView,
      (if i = index then { u with activeTouch := none } else u).backgroundColor = u.backgroundColor := by
    intro u
    split <;> rfl
  refine ⟨w, hw, ?_⟩
  rw [hbackground]
  by_cases his : i = t.selectedIndex
  · rw [if_pos his]
    exact .inl ⟨his, TabsItemView.backgroundColor_setItemHighlighted true true⟩
  · rw [if_neg his]
    by_cases hi : i = index
    · rw [if_pos hi]
      exact .inr (.inl ⟨his, TabsItemView.backgroundColor_setItemHighlighted false true⟩)
    · rw [if_neg hi, if_neg hi]
      exact .inr (.inr ⟨his, rfl⟩)

/-! ### What turns white -/

/-- An item whose text does not stand out is the selected one, and is touched. -/
def Pressed (t : Tabs) : Prop :=
  ∀ i v, t.itemViews[i]? = some v → ¬ v.Inked → i = t.selectedIndex ∧ v.activeTouch ≠ none

theorem setTitles_pressed (t : Tabs) (titles : List (List Char)) : (t.setTitles titles).Pressed := by
  intro i v hv hnot
  have hlegible := setTitles_legible t titles v (List.mem_of_getElem? hv)
  obtain ⟨title, -, rfl⟩ := List.mem_map.mp (List.mem_of_getElem? hv)
  exact absurd (hlegible.inked_of_itemColor (show _ = TabsItemView.itemColor false from rfl)) hnot

theorem Chosen.pressed {t' : Tabs} {itemIndex : ℕ} (h : Chosen t t' itemIndex) (hlegible : t'.Legible) :
    t'.Pressed := by
  intro i v hv hnot
  have hv' := hlegible v (List.mem_of_getElem? hv)
  exact absurd (hv'.inked_of_itemColor (h.highlighted i v hv)) hnot

theorem Pressed.shouldReceiveTouch (h : t.Pressed) (hlegible : t.Legible) {index : ℕ} (touch : ℕ)
    (hindex : index < t.itemViews.length) (hselected : t.selectedIndex < t.itemViews.length) :
    (t.shouldReceiveTouch index touch).Pressed := by
  intro i v hv hnot
  have hv' := hlegible.shouldReceiveTouch index touch v (List.mem_of_getElem? hv)
  rw [(shouldReceiveTouch_kept touch hindex hselected).selectedIndex]
  obtain ⟨htouch, w, hw, hcases⟩ := shouldReceiveTouch_item hindex hselected hv
  rcases hcases with ⟨hi, his, -⟩ | ⟨-, hsemi⟩ | ⟨-, -, rfl⟩ | ⟨-, -, rfl⟩
  · refine ⟨his, ?_⟩
    rw [htouch hi]
    simp
  · exact absurd (hv'.inked_of_semiColor hsemi) hnot
  · exact h i v hw hnot
  · exact h i v hw hnot

theorem Pressed.cancelTouches (h : t.Pressed) (hlegible : t.Legible) {index : ℕ} (touches : List ℕ)
    (hindex : index < t.itemViews.length) (hselected : t.selectedIndex < t.itemViews.length) :
    (t.cancelTouches index touches).Pressed := by
  have hlegible' := hlegible.cancelTouches index touches
  rcases cancelTouches_cases t index touches with heq | heq
  · rw [heq]
    exact h
  rw [heq] at hlegible' ⊢
  intro i v hv hnot
  have hv' := hlegible' v (List.mem_of_getElem? hv)
  obtain ⟨w, hw, ⟨-, hcolor⟩ | ⟨-, hcolor⟩ | ⟨his, rfl⟩⟩ :=
    cancelItemSemiSelection_item hindex hselected hv
  · exact absurd (hv'.inked_of_itemColor hcolor) hnot
  · exact absurd (hv'.inked_of_itemColor hcolor) hnot
  · exact absurd (h i v hw hnot).1 his

theorem Pressed.animateSelection (h : t.Pressed) (hlegible : t.Legible) (direction : Direction)
    (completed : ℚ) : (t.animateSelection direction completed).Pressed := by
  unfold Tabs.animateSelection
  split
  swap
  · exact h
  split
  · exact h
  intro i v hv hnot
  rw [List.getElem?_mapIdx] at hv
  obtain ⟨w, hw, rfl⟩ := Option.map_eq_some_iff.mp hv
  have hw' := hlegible w (List.mem_of_getElem? hw)
  -- the two items of a drag are inked by it
  split at hnot
  · exact absurd (hw'.inked_animateSelection completed true) hnot
  · rename_i his
    split at hnot
    · exact absurd (hw'.inked_animateSelection completed false) hnot
    · exact absurd (h i w hw hnot).1 his

/-- The only tab of a screen is white on white while it is touched. -/
example : ((awakeFromNib.setTitles [['a']]).shouldReceiveTouch 0 1).itemViews.map
    (fun v => (v.visibleLabel.textColor, v.backgroundColor)) = [(.whiteColor, .whiteColor)] := rfl

/-! ### What is highlighted -/

/-- An item that is not selected and not touched is plain; the selected one is
highlighted when nothing is touched, and its text is black or gray. -/
structure Settled (t : Tabs) : Prop where
  item : ∀ i v, t.itemViews[i]? = some v → i ≠ t.selectedIndex → v.activeTouch = none →
    v.backgroundColor = .clearColor
  selected : (∀ v ∈ t.itemViews, v.activeTouch = none) →
    ∀ v, t.itemViews[t.selectedIndex]? = some v → v.backgroundColor = TabsItemView.itemColor true
  dark : ∀ v, t.itemViews[t.selectedIndex]? = some v → v.Dark

theorem Chosen.settled {t' : Tabs} {itemIndex : ℕ} (h : Chosen t t' itemIndex) (hlegible : t'.Legible) :
    t'.Settled := by
  have hselected : ∀ v, t'.itemViews[t'.selectedIndex]? = some v →
      v.backgroundColor = TabsItemView.itemColor true := by
    intro v hv
    rw [h.highlighted _ v hv, decide_eq_true h.selectedIndex]
  refine ⟨?_, fun _ => hselected, ?_⟩
  · intro i v hv hne _
    rw [h.selectedIndex] at hne
    rw [h.highlighted i v hv, decide_eq_false hne]
    rfl
  · intro v hv
    exact (hlegible v (List.mem_of_getElem? hv)).dark_of_itemColor (hselected v hv)

/-- The item that is touched is left out. -/
theorem Settled.shouldReceiveTouch (h : t.Settled) (hlegible : t.Legible) {index : ℕ} (touch : ℕ)
    (hindex : index < t.itemViews.length) (hselected : t.selectedIndex < t.itemViews.length) :
    (t.shouldReceiveTouch index touch).Settled := by
  have hkept := shouldReceiveTouch_kept touch hindex hselected
  constructor
  · intro i v hv hne htouch
    rw [hkept.selectedIndex] at hne
    obtain ⟨htouched, w, hw, hcases⟩ := shouldReceiveTouch_item hindex hselected hv
    have hi : i ≠ index := fun hi => by cases (htouched hi).symm.trans htouch
    rcases hcases with ⟨hi', -, -⟩ | ⟨hi' | his, -⟩ | ⟨-, -, rfl⟩ | ⟨-, -, rfl⟩
    · exact absurd hi' hi
    · exact absurd hi' hi
    · exact absurd his hne
    · exact h.item i v hw hne htouch
    · exact h.item i v hw hne htouch
  · intro hnone
    -- somebody touches the item
    have hlt : index < (t.shouldReceiveTouch index touch).itemViews.length := hkept.length ▸ hindex
    have htouched := (shouldReceiveTouch_item hindex hselected (List.getElem?_eq_getElem hlt)).1 rfl
    cases htouched.symm.trans (hnone _ (List.getElem_mem hlt))
  · intro v hv
    have hv' := hlegible.shouldReceiveTouch index touch v (List.mem_of_getElem? hv)
    rw [hkept.selectedIndex] at hv
    obtain ⟨-, w, hw, hcases⟩ := shouldReceiveTouch_item hindex hselected hv
    rcases hcases with ⟨-, -, hlabel⟩ | ⟨-, hsemi⟩ | ⟨-, hne, -⟩ | ⟨hi, hsel, -⟩
    · rw [TabsItemView.Dark, hlabel]
      exact h.dark w hw
    · exact hv'.dark_of_semiColor hsemi
    · exact absurd rfl hne
    · exact absurd hsel.symm hi

/-- The item is plain again, or the selected one. -/
theorem Settled.cancelTouches (h : t.Settled) (hlegible : t.Legible) {index : ℕ} (touches : List ℕ)
    (hindex : index < t.itemViews.length) (hselected : t.selectedIndex < t.itemViews.length) :
    (t.cancelTouches index touches).Settled := by
  have hlegible' := hlegible.cancelTouches index touches
  rcases cancelTouches_cases t index touches with heq | heq
  · rw [heq]
    exact h
  rw [heq] at hlegible' ⊢
  have hsame : ((t.cancelItemSemiSelection index).setActiveTouch index none).selectedIndex =
      t.selectedIndex := (cancelItemSemiSelection_kept hindex hselected).selectedIndex
  have hhighlighted : ∀ v, ((t.cancelItemSemiSelection index).setActiveTouch index none).itemViews[
      t.selectedIndex]? = some v → v.backgroundColor = TabsItemView.itemColor true := by
    intro v hv
    obtain ⟨w, -, ⟨-, hcolor⟩ | ⟨hne, -⟩ | ⟨hne, -⟩⟩ := cancelItemSemiSelection_item hindex hselected hv
    · exact hcolor
    · exact absurd rfl hne
    · exact absurd rfl hne
  constructor
  · intro i v hv hne htouch
    rw [hsame] at hne
    obtain ⟨w, hw, ⟨his, -⟩ | ⟨-, hcolor⟩ | ⟨-, rfl⟩⟩ := cancelItemSemiSelection_item hindex hselected hv
    · exact absurd his hne
    · exact hcolor
    · exact h.item i v hw hne htouch
  · intro _ v hv
    exact hhighlighted v (hsame ▸ hv)
  · intro v hv
    exact (hlegible' v (List.mem_of_getElem? hv)).dark_of_itemColor (hhighlighted v (hsame ▸ hv))

/-! ### Where the selected item stands -/

/-- The selected item stands in one of the three columns. -/
def Visible (t : Tabs) : Prop :=
  t.leftItemIndex ≤ t.selectedIndex ∧ (t.selectedIndex : ℤ) < t.leftItemIndex + kTabsCount

theorem leftIndex_visible {count itemIndex : ℕ} (h : itemIndex < count) :
    leftIndex count itemIndex ≤ itemIndex ∧ (itemIndex : ℤ) < leftIndex count itemIndex + kTabsCount := by
  unfold leftIndex kTabsCount
  simp only
  split <;> split <;> omega

theorem Chosen.visible {t' : Tabs} {itemIndex : ℕ} (h : Chosen t t' itemIndex)
    (hlt : itemIndex < t.itemViews.length) : t'.Visible := by
  rw [Visible, h.leftItemIndex, h.selectedIndex]
  exact leftIndex_visible hlt

theorem Visible.kept (h : t.Visible) {t' : Tabs} (hkept : Kept t t') : t'.Visible := by
  rw [Visible, hkept.leftItemIndex, hkept.selectedIndex]
  exact h

end Tabs
end TabsRow
end Horo
