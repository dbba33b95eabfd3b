/-
# The prediction screen while it runs

`ViewControllers/PredictionViewController`: the screen waits for the two
replies of its model, and then a row of tabs and a page view controller follow
each other. A tap on a tab starts an animation to its page, which the cell
takes for the selected page only when the animation ends; a swipe is taken at
once. Animations end in the order in which they were started. The view model
passes on what the model calls back from when the view has set its callback;
the two callbacks are one here. The heights of the rows, and the cell of the
person, are left out.

* `shows_of_reach`: when both replies are there the screen shows what the model
  has made of them, or that there is nothing.
* `row_of_reach`: the text of the items can be read, unless one is pressed
  while it is the only one or dragged; the selected one is in sight, and at rest
  it is the one that is highlighted.
* `opens_today_iff`: when the tab that is opened is the one of today.
-/
import Horo.HoroscopesCell
import Horo.PredictionReplies
import Horo.Screens.Tabs

namespace Horo
namespace PredictionView

open Lib PredictionScreen
open HoroscopesCell (Page Cell inBounds)
open TabsRow (Tabs Direction)

variable {Color : Type*}

/-! ### The view controller -/

structure View (Color : Type*) where
  tabs : Tabs
  horoscopesCell : Cell Color
  /-- `viewControllers.firstObject` of the page view controller. -/
  shown : Option (Page Color)
  /-- The pages of the animations that have not ended. -/
  animations : List (Page Color)
  allowCustomAnimationWithTabs : Bool
  hud : Bool
  showNoConnectionView : Bool
  /-- A drag has colored the items since the last selection. -/
  dragged : Bool

inductive Row
  | friendCell
  | zodiacTitleCell
  | tabsCell
  | horoscopesCell
  | noConnectionCell
  deriving DecidableEq, Repr

def kTodayTabIndex : ℕ := 1

namespace View

/-- `viewDidLoad`, with the colors of the view model. -/
def viewDidLoad (fontColor : Color) (backgroundColor : Option Color) : View Color where
  tabs := TabsRow.awakeFromNib
  horoscopesCell :=
    let cell := HoroscopesCell.awakeFromNib
    let cell := if backgroundColor.isSome then cell.setBackgroundColor backgroundColor else cell
    cell.setTextColor (some fontColor)
  shown := none
  animations := []
  allowCustomAnimationWithTabs := true
  hud := true
  showNoConnectionView := false
  dragged := false

variable (v : View Color)

/-- `cellForRowAtIndexPath`. -/
def rows : List Row :=
  if v.showNoConnectionView then [.friendCell, .zodiacTitleCell, .noConnectionCell]
  else [.friendCell, .zodiacTitleCell, .tabsCell, .horoscopesCell]

/-- The row with new titles; the tab of today is selected without notice. -/
def tabsWithTitles (tabs : Tabs) (titles : List (List Char)) : Tabs :=
  let tabs := tabs.setTitles titles
  if tabs.titles.length > kTodayTabIndex then (tabs.setItemSelected kTodayTabIndex false).1 else tabs

/-- The callback of the model; `L` is the text of a title in the language of
the device. -/
def dataFetched (L : List Char → List Char) (titles texts : List String) : View Color :=
  let v := { v with hud := false }
  if titles = [] then { v with showNoConnectionView := true }
  else
    let (viewController, horoscopesCell) := v.horoscopesCell.setTexts (texts.map String.toList)
    { v with
      tabs := tabsWithTitles v.tabs (titles.map fun string => L string.toList)
      horoscopesCell
      shown := if texts = [] then v.shown else viewController }

def noConnectionTapped : View Color := { v with showNoConnectionView := false, hud := true }

def draggingProgress (direction : Direction) (completed : ℚ) : View Color :=
  if v.allowCustomAnimationWithTabs then
    { v with tabs := v.tabs.animateSelection direction completed, dragged := true }
  else v

/-- Without a page to go to, the completion is called at once. -/
def tabsItemViewSelected (currentIndex : ℕ) : View Color :=
  let v := { v with allowCustomAnimationWithTabs := false }
  match v.horoscopesCell.setSelectedIndex currentIndex with
  | (some viewController, horoscopesCell) =>
    { v with horoscopesCell, shown := some viewController, animations := v.animations ++ [viewController] }
  | (none, horoscopesCell) => { v with horoscopesCell, allowCustomAnimationWithTabs := true }

def tapped (index : ℕ) : View Color :=
  let (tabs, selection) := v.tabs.tapped index
  let v := { v with tabs, dragged := false }
  match selection with
  | some (_, currentIndex) => v.tabsItemViewSelected currentIndex
  | none => v

/-- The completion of the first animation. -/
def animationFinished : View Color :=
  match v.animations with
  | [] => v
  | viewController :: animations =>
    { v with
      horoscopesCell := { v.horoscopesCell with selectedViewController := some viewController }
      animations
      allowCustomAnimationWithTabs := true }

def selectedPageChanged (current : ℕ) : View Color :=
  { v with tabs := (v.tabs.setItemSelectedAnimation current .frameOnly).1, dragged := false }

/-- The page on one side of a page. -/
def pageBeside (direction : Direction) (viewController : Page Color) : Option (Page Color) × Cell Color :=
  match direction with
  | .forwardToLeft => v.horoscopesCell.viewControllerAfter viewController
  | .backToRight => v.horoscopesCell.viewControllerBefore viewController

/-- A swipe to the page beside the one that is shown; pages of one cell are
equal if they are the same. -/
def swipe [DecidableEq Color] (direction : Direction) (completed : Bool) : View Color :=
  match v.shown with
  | none => v
  | some viewController =>
    match v.pageBeside direction viewController with
    | (none, horoscopesCell) => { v with horoscopesCell }
    | (some next, horoscopesCell) =>
      if completed then
        let v := { v with horoscopesCell, shown := some next }
        if horoscopesCell.selectedViewController = some next then v
        else
          let v := { v with horoscopesCell := horoscopesCell.didFinishAnimating next true }
          v.selectedPageChanged next.index
      else { v with horoscopesCell }

end View

/-! ### The screen and its model -/

/-- The model, and the view when it has been loaded. -/
structure Screen (Color : Type*) where
  replies : Replies
  view : Option (View Color)

inductive Event (Color : Type*)
  | viewDidLoad (fontColor : Color) (backgroundColor : Option Color)
  | serverTime (ti : ℚ)
  | horoscopesFetched (fetched : PredictionScreen.Horoscopes)
  | noConnectionTapped
  | shouldReceiveTouch (index touch : ℕ)
  | cancelTouches (index : ℕ) (touches : List ℕ)
  | tapped (index : ℕ)
  | drag (direction : Direction) (completed : ℚ)
  | swipe (direction : Direction) (completed : Bool)
  | animationFinished

section

variable (o : Int) (L : List Char → List Char)

/-- A reply to the model, which calls back. -/
def reply (s : Screen Color) (e : ReplyEvent) : Screen Color :=
  let arrived := (replies o).step s.replies e
  { replies := arrived
    view :=
      if arrived.model.calls = s.replies.model.calls then s.view
      else s.view.map fun v => v.dataFetched L arrived.model.tabsTitles arrived.model.predictions }

/-- What the event finds on the screen: an item is touched that is there, the
button is tapped while it is shown, a page is dragged. -/
def Offers (v : View Color) : Event Color → Prop
  | .noConnectionTapped => Row.noConnectionCell ∈ v.rows
  | .shouldReceiveTouch index _ => index < v.tabs.itemViews.length
  | .cancelTouches index _ => index < v.tabs.itemViews.length
  | .tapped index => index < v.tabs.itemViews.length
  | .drag _ _ => v.shown.isSome
  | .swipe _ _ => v.shown.isSome
  | .animationFinished => v.animations ≠ []
  | _ => False

def system [DecidableEq Color] : EventSystem (Screen Color) (Event Color) where
  init s := s = ⟨constructed, none⟩
  admits s
    | .viewDidLoad _ _ => s.view = none
    | .serverTime ti => (replies o).admits s.replies (.serverTime ti)
    | .horoscopesFetched fetched => (replies o).admits s.replies (.horoscopesFetched fetched)
    | e => ∃ v, s.view = some v ∧ Offers v e
  step s
    | .viewDidLoad fontColor backgroundColor =>
      { replies := (replies o).step s.replies (.setDataFetchedCallback true)
        view := some (.viewDidLoad fontColor backgroundColor) }
    | .serverTime ti => reply o L s (.serverTime ti)
    | .horoscopesFetched fetched => reply o L s (.horoscopesFetched fetched)
    | .noConnectionTapped =>
      { replies := (replies o).step s.replies .loadData, view := s.view.map (·.noConnectionTapped) }
    | .shouldReceiveTouch index touch =>
      { s with view := s.view.map fun v => { v with tabs := v.tabs.shouldReceiveTouch index touch } }
    | .cancelTouches index touches =>
      { s with view := s.view.map fun v => { v with tabs := v.tabs.cancelTouches index touches } }
    | .tapped index => { s with view := s.view.map (·.tapped index) }
    | .drag direction completed => { s with view := s.view.map (·.draggingProgress direction completed) }
    | .swipe direction completed => { s with view := s.view.map (·.swipe direction completed) }
    | .animationFinished => { s with view := s.view.map (·.animationFinished) }

end

/-! ### The pages of the cell -/

/-- The page carries the text of its index. -/
def Of (texts : List (List Char)) (page : Page Color) : Prop := texts[page.index]? = some page.text

/-- The pages that a cell keeps are those of its texts. -/
structure Holds (texts : List (List Char)) (c : Cell Color) : Prop where
  same : c.texts = texts
  pages : ∀ (i : ℤ) (page : Page Color), c.viewControllers i = some page →
    (page.index : ℤ) = i ∧ Of texts page

theorem Of.lt {texts : List (List Char)} {page : Page Color} (h : Of texts page) :
    page.index < texts.length :=
  (List.getElem?_eq_some_iff.mp h).1

section

variable {texts : List (List Char)} {c : Cell Color}

/-- The page of an index in bounds is found or made, and there is none outside. -/
theorem Holds.lookup (h : Holds texts c) (index : ℤ) :
    Holds texts (c.viewControllerByIndex index).2 ∧
      (c.viewControllerByIndex index).2.selectedViewController = c.selectedViewController ∧
      (∀ page, (c.viewControllerByIndex index).1 = some page → (page.index : ℤ) = index ∧ Of texts page) ∧
      (inBounds index texts → ∃ page, (c.viewControllerByIndex index).1 = some page) := by
  obtain ⟨rfl, hpages⟩ := h
  rcases hfind : c.viewControllers index with _ | viewController
  · by_cases hin : inBounds index c.texts
    · -- the page that is made
      set page : Page Color :=
        { index := index.toNat
          text := c.texts.getD index.toNat []
          textColor := c.textColor
          backgroundColor := c.backgroundColor } with hpage
      have hof : (page.index : ℤ) = index ∧ Of c.texts page :=
        ⟨Int.toNat_of_nonneg hin.1, HoroscopesCell.textAt_of_inBounds hin⟩
      have hlookup : c.viewControllerByIndex index =
          (some page,
            { c with
              viewControllers := Function.update c.viewControllers index (some page)
              lookups := c.lookups ++ [⟨index, c.texts, some page⟩] }) := by
        simp only [Cell.viewControllerByIndex, hfind, Cell.allocateViewControllerWithIndex, if_pos hin,
          hpage]
      rw [hlookup]
      refine ⟨⟨rfl, fun i kept hkept => ?_⟩, rfl, fun kept hkept => Option.some.inj hkept ▸ hof,
        fun _ => ⟨_, rfl⟩⟩
      change Function.update c.viewControllers index (some page) i = some kept at hkept
      by_cases hi : i = index
      · subst hi
        rw [Function.update_self] at hkept
        exact Option.some.inj hkept ▸ hof
      · rw [Function.update_of_ne hi] at hkept
        exact hpages i kept hkept
    · have hlookup : c.viewControllerByIndex index =
          (none, { c with lookups := c.lookups ++ [⟨index, c.texts, none⟩] }) := by
        simp only [Cell.viewControllerByIndex, hfind, Cell.allocateViewControllerWithIndex, if_neg hin]
      rw [hlookup]
      exact ⟨⟨rfl, hpages⟩, rfl, fun _ hpage => (nomatch hpage), fun hin' => absurd hin' hin⟩
  · have hlookup : c.viewControllerByIndex index =
        (some viewController,
          { c with lookups := c.lookups ++ [⟨index, c.texts, some viewController⟩] }) := by
      simp only [Cell.viewControllerByIndex, hfind]
    rw [hlookup]
    refine ⟨⟨rfl, hpages⟩, rfl, fun page hpage => ?_, fun _ => ⟨_, rfl⟩⟩
    obtain rfl := Option.some.inj hpage
    exact hpages index viewController hfind

/-- The first page of some texts is the one of today, or the only one. -/
theorem setTexts_holds (hc : c.viewControllers = fun _ => none) (hne : texts ≠ []) :
    ∃ page, (c.setTexts texts).1 = some page ∧ Of texts page ∧
      page.index = (if texts.length > 1 then 1 else 0) ∧ Holds texts (c.setTexts texts).2 ∧
      (c.setTexts texts).2.selectedViewController = some page := by
  have hlength : texts.length ≠ 0 := fun h => hne (List.length_eq_zero_iff.mp h)
  have hholds : Holds texts { c with texts } := ⟨rfl, by
    intro i page hpage
    rw [hc] at hpage
    cases hpage⟩
  have hin : inBounds (if texts.length > 1 then 1 else 0) texts := by
    unfold inBounds
    split <;> omega
  obtain ⟨hkept, -, hpage, hsome⟩ := hholds.lookup (if texts.length > 1 then 1 else 0)
  obtain ⟨page, hfound⟩ := hsome hin
  obtain ⟨hindex, hof⟩ := hpage page hfound
  rw [Cell.setTexts, if_neg hlength]
  refine ⟨page, hfound, hof, ?_, ⟨hkept.same, hkept.pages⟩, hfound⟩
  split <;> rename_i h
  · rw [if_pos h] at hindex
    exact_mod_cast hindex
  · rw [if_neg h] at hindex
    exact_mod_cast hindex

/-- What a tab finds: nothing to do when its page is the selected one, or else
its page. -/
theorem Holds.setSelectedIndex (h : Holds texts c) {index : ℕ} (hlt : index < texts.length)
    {selected : Page Color} (hselected : c.selectedViewController = some selected) :
    (selected.index = index → c.setSelectedIndex index = (none, c)) ∧
      (selected.index ≠ index → ∃ page, (c.setSelectedIndex index).1 = some page ∧ page.index = index ∧
        Of texts page ∧ Holds texts (c.setSelectedIndex index).2 ∧
        (c.setSelectedIndex index).2.selectedViewController = some selected) := by
  unfold Cell.setSelectedIndex
  rw [hselected, Option.map_some, Option.getD_some]
  constructor
  · rintro rfl
    rw [if_pos rfl]
  · intro hne
    rw [if_neg (by exact_mod_cast hne)]
    obtain ⟨hkept, hsame, hpage, hsome⟩ := h.lookup (index : ℤ)
    obtain ⟨page, hfound⟩ := hsome ⟨Int.natCast_nonneg _, by exact_mod_cast hlt⟩
    obtain ⟨hindex, hof⟩ := hpage page hfound
    exact ⟨page, hfound, by exact_mod_cast hindex, hof, hkept, by rw [hsame, hselected]⟩

end

/-! ### What a reply does -/

/-- Both replies to the load have arrived, and they have found the callback. -/
structure Answered (s : Replies) (ti : ℚ) (fetched : PredictionScreen.Horoscopes) : Prop where
  time : s.time = some ti
  fetched : s.fetched = some fetched
  setInTime : s.setInTime = true

/-- A reply, on the replies alone. -/
inductive IsReply : ReplyEvent → Prop
  | serverTime (ti : ℚ) : IsReply (.serverTime ti)
  | horoscopesFetched (fetched : PredictionScreen.Horoscopes) : IsReply (.horoscopesFetched fetched)

section

variable {o : Int} {r : Replies}

/-- The model calls back with what it shows when it has been answered, and
otherwise not. -/
theorem calls_of_reply (hr : (replies o).Reach EventSystem.anyEvent r) {e : ReplyEvent} (he : IsReply e)
    (ha : (replies o).admits r e) :
    (∃ ti fetched, Answered ((replies o).step r e) ti fetched ∧
        ((replies o).step r e).model.calls ≠ r.model.calls ∧
        ((replies o).step r e).model.tabsTitles = (tabsOf o ti fetched).map Prod.fst ∧
        ((replies o).step r e).model.predictions = (tabsOf o ti fetched).map fun tab => tab.2.content) ∨
      ((∀ ti fetched, ¬ Answered ((replies o).step r e) ti fetched) ∧
        ((replies o).step r e).model.calls = r.model.calls) := by
  have hj := joined_of_reach hr
  have hj' := joined_step hj e ha
  have hwaiting : r.model.calls = r.callsBefore := by
    cases he with
    | serverTime ti => exact hj.waiting (.inl ha)
    | horoscopesFetched fetched => exact hj.waiting (.inr ha)
  have hbefore : ((replies o).step r e).callsBefore = r.callsBefore := by
    cases he <;> rfl
  rcases htime : ((replies o).step r e).time with _ | ti
  · refine .inr ⟨fun ti fetched h => ?_, ?_⟩
    · cases htime.symm.trans h.time
    · rw [hj'.waiting (.inl htime), hbefore, hwaiting]
  rcases hfetched : ((replies o).step r e).fetched with _ | fetched
  · refine .inr ⟨fun ti fetched h => ?_, ?_⟩
    · cases hfetched.symm.trans h.fetched
    · rw [hj'.waiting (.inr hfetched), hbefore, hwaiting]
  obtain ⟨htitles, hpredictions, hcalls⟩ := hj'.done ti fetched htime hfetched
  rcases hset : ((replies o).step r e).setInTime
  · refine .inr ⟨fun ti fetched h => ?_, ?_⟩
    · cases hset.symm.trans h.setInTime
    · rw [hcalls, hset, hbefore, hwaiting]
      rfl
  · refine .inl ⟨ti, fetched, ⟨htime, hfetched, hset⟩, ?_, htitles, hpredictions⟩
    rw [hcalls, hset, hbefore, hwaiting, if_pos rfl]
    omega

end

/-! ### What the screen keeps -/

/-- The row of tabs under its titles. -/
structure Titled (titles : List (List Char)) (t : Tabs) (dragged : Bool) : Prop where
  same : t.titles = titles
  length : t.itemViews.length = titles.length
  selected : t.selectedIndex < titles.length
  raised : t.raised = false
  visible : t.Visible
  legible : t.Legible
  pressed : t.Pressed
  settled : dragged = false → titles.length ≠ 1 → t.Settled

/-- The screen shows titles and texts. -/
structure Showing (titles texts : List (List Char)) (v : View Color) : Prop where
  row : Titled titles v.tabs v.dragged
  cell : Holds texts v.horoscopesCell
  shown : ∃ page, v.shown = some page ∧ Of texts page
  selected : ∃ page, v.horoscopesCell.selectedViewController = some page ∧ Of texts page
  animations : ∀ page ∈ v.animations, Of texts page
  hud : v.hud = false
  showNoConnectionView : v.showNoConnectionView = false

/-- Tab and page belong together. -/
def Agree (v : View Color) : Prop := ∀ page, v.shown = some page → page.index = v.tabs.selectedIndex

section

variable {titles texts : List (List Char)}

theorem Titled.selected_lt {t : Tabs} {dragged : Bool} (h : Titled titles t dragged) :
    t.selectedIndex < t.itemViews.length := h.length ▸ h.selected

theorem Titled.kept {t t' : Tabs} {dragged dragged' : Bool} (h : Titled titles t dragged)
    (hkept : TabsRow.Tabs.Kept t t') (hlegible : t'.Legible) (hpressed : t'.Pressed)
    (hsettled : dragged' = false → titles.length ≠ 1 → t'.Settled) : Titled titles t' dragged' where
  same := hkept.titles.trans h.same
  length := hkept.length.trans h.length
  selected := hkept.selectedIndex ▸ h.selected
  raised := hkept.raised.trans h.raised
  visible := h.visible.kept hkept
  legible := hlegible
  pressed := hpressed
  settled := hsettled

theorem Titled.chosen {t t' : Tabs} {dragged : Bool} (h : Titled titles t dragged) {itemIndex : ℕ}
    (hchosen : TabsRow.Tabs.Chosen t t' itemIndex) (hlt : itemIndex < titles.length)
    (hlegible : t'.Legible) :
    Titled titles t' false where
  same := hchosen.titles.trans h.same
  length := hchosen.length.trans h.length
  selected := hchosen.selectedIndex ▸ hlt
  raised := hchosen.raised.trans h.raised
  visible := hchosen.visible (h.length ▸ hlt)
  legible := hlegible
  pressed := hchosen.pressed hlegible
  settled _ _ := hchosen.settled hlegible

variable {v : View Color}

theorem Showing.setTabs (h : Showing titles texts v) {tabs : Tabs} {dragged : Bool}
    (hrow : Titled titles tabs dragged) : Showing titles texts { v with tabs, dragged } :=
  ⟨hrow, h.cell, h.shown, h.selected, h.animations, h.hud, h.showNoConnectionView⟩

theorem Showing.shouldReceiveTouch (h : Showing titles texts v) {index : ℕ} (touch : ℕ)
    (hlt : index < v.tabs.itemViews.length) :
    Showing titles texts { v with tabs := v.tabs.shouldReceiveTouch index touch } :=
  h.setTabs (h.row.kept (TabsRow.Tabs.shouldReceiveTouch_kept touch hlt h.row.selected_lt)
    (h.row.legible.shouldReceiveTouch index touch)
    (h.row.pressed.shouldReceiveTouch h.row.legible touch hlt h.row.selected_lt)
    fun hdragged hone =>
      (h.row.settled hdragged hone).shouldReceiveTouch h.row.legible touch hlt h.row.selected_lt)

theorem Showing.cancelTouches (h : Showing titles texts v) {index : ℕ} (touches : List ℕ)
    (hlt : index < v.tabs.itemViews.length) :
    Showing titles texts { v with tabs := v.tabs.cancelTouches index touches } :=
  h.setTabs (h.row.kept (TabsRow.Tabs.cancelTouches_kept touches hlt h.row.selected_lt)
    (h.row.legible.cancelTouches index touches)
    (h.row.pressed.cancelTouches h.row.legible touches hlt h.row.selected_lt)
    fun hdragged hone =>
      (h.row.settled hdragged hone).cancelTouches h.row.legible touches hlt h.row.selected_lt)

theorem Showing.draggingProgress (h : Showing titles texts v) (direction : Direction) (completed : ℚ) :
    Showing titles texts (v.draggingProgress direction completed) := by
  unfold View.draggingProgress
  split
  · exact h.setTabs (h.row.kept (TabsRow.Tabs.animateSelection_kept direction completed h.row.selected_lt)
      (h.row.legible.animateSelection direction completed)
      (h.row.pressed.animateSelection h.row.legible direction completed) fun hdragged => nomatch hdragged)
  · exact h

theorem Showing.animationFinished (h : Showing titles texts v) :
    Showing titles texts v.animationFinished := by
  unfold View.animationFinished
  rcases hanimations : v.animations with _ | ⟨page, rest⟩
  · exact h
  · have hmem := h.animations
    rw [hanimations] at hmem
    exact ⟨h.row, ⟨h.cell.same, h.cell.pages⟩, h.shown, ⟨page, rfl, hmem page List.mem_cons_self⟩,
      fun page' hpage' => hmem page' (List.mem_cons_of_mem _ hpage'), h.hud, h.showNoConnectionView⟩

/-- A tap: the row selects the tab, and the page follows it unless the cell
takes it for the selected page already. -/
theorem Showing.tapped (h : Showing titles texts v) (hlength : titles.length = texts.length) {index : ℕ}
    (hlt : index < v.tabs.itemViews.length) :
    Showing titles texts (v.tapped index) ∧ (v.tapped index).tabs.selectedIndex = index ∧
      (∀ page, v.horoscopesCell.selectedViewController = some page →
        (v.tabs.selectedIndex ≠ index ∧ page.index ≠ index →
          ∃ next, (v.tapped index).shown = some next ∧ next.index = index ∧
            (v.tapped index).animations = v.animations ++ [next] ∧
            (v.tapped index).horoscopesCell.selectedViewController = some page) ∧
        (v.tabs.selectedIndex = index ∨ page.index = index →
          (v.tapped index).shown = v.shown ∧ (v.tapped index).animations = v.animations ∧
            (v.tapped index).horoscopesCell.selectedViewController = some page)) := by
  have hchosen := TabsRow.Tabs.tapped_chosen hlt
  have hselection := TabsRow.Tabs.tapped_selection hlt
  have hrow := h.row.chosen hchosen (h.row.length ▸ hlt) (h.row.legible.tapped index)
  obtain ⟨page, hpage, hof⟩ := h.selected
  have hintext : index < texts.length := hlength ▸ h.row.length ▸ hlt
  obtain ⟨hsame, hother⟩ := h.cell.setSelectedIndex hintext hpage
  by_cases hstay : v.tabs.selectedIndex = index
  · -- the tab is the selected one, and nothing is called
    have htapped : v.tapped index = { v with tabs := (v.tabs.tapped index).1, dragged := false } := by
      rw [if_neg (not_not.mpr hstay)] at hselection
      simp only [View.tapped, hselection]
    rw [htapped]
    refine ⟨h.setTabs hrow, hchosen.selectedIndex, fun page' hpage' => ⟨?_, fun _ => ⟨rfl, rfl, hpage'⟩⟩⟩
    rintro ⟨hne, -⟩
    exact absurd hstay hne
  have htapped : v.tapped index =
      View.tabsItemViewSelected { v with tabs := (v.tabs.tapped index).1, dragged := false } index := by
    rw [if_pos hstay] at hselection
    simp only [View.tapped, hselection]
  rw [htapped, View.tabsItemViewSelected]
  by_cases hback : page.index = index
  · rw [hsame hback]
    refine ⟨⟨hrow, h.cell, h.shown, ⟨page, hpage, hof⟩, h.animations, h.hud, h.showNoConnectionView⟩,
      hchosen.selectedIndex, fun page' hpage' => ⟨?_, fun _ => ⟨rfl, rfl, hpage'⟩⟩⟩
    obtain rfl := Option.some.inj (hpage.symm.trans hpage')
    rintro ⟨-, hne⟩
    exact absurd hback hne
  · obtain ⟨next, hfound, hindex, hnext, hholds, hkept⟩ := hother hback
    rcases hpair : v.horoscopesCell.setSelectedIndex index with ⟨found, cell⟩
    rw [hpair] at hfound hholds hkept
    obtain rfl : found = some next := hfound
    refine ⟨⟨hrow, hholds, ⟨next, rfl, hnext⟩, ⟨page, hkept, hof⟩, ?_, h.hud, h.showNoConnectionView⟩,
      hchosen.selectedIndex, fun page' hpage' => ?_⟩
    · intro page' hpage'
      rcases List.mem_append.mp hpage' with hold | hnew
      · exact h.animations page' hold
      · obtain rfl := List.mem_singleton.mp hnew
        exact hnext
    · obtain rfl := Option.some.inj (hpage.symm.trans hpage')
      refine ⟨fun _ => ⟨next, rfl, hindex, rfl, hkept⟩, ?_⟩
      rintro (hsel | hback')
      · exact absurd hsel hstay
      · exact absurd hback' hback

/-- The page beside a page is the next one of the texts. -/
theorem Showing.pageBeside (h : Showing titles texts v) (direction : Direction) (page : Page Color) :
    Holds texts (v.pageBeside direction page).2 ∧
      (v.pageBeside direction page).2.selectedViewController = v.horoscopesCell.selectedViewController ∧
      ∀ next, (v.pageBeside direction page).1 = some next → Of texts next ∧ next.index ≠ page.index := by
  cases direction with
  | forwardToLeft =>
    simp only [View.pageBeside, Cell.viewControllerAfter]
    split
    · refine ⟨h.cell, rfl, ?_⟩
      intro next hnext
      cases hnext
    · obtain ⟨hholds, hselected, hpage, -⟩ := h.cell.lookup ((page.index : ℤ) + 1)
      refine ⟨hholds, hselected, fun next hnext => ⟨(hpage next hnext).2, ?_⟩⟩
      have := (hpage next hnext).1
      omega
  | backToRight =>
    simp only [View.pageBeside, Cell.viewControllerBefore]
    split
    · refine ⟨h.cell, rfl, ?_⟩
      intro next hnext
      cases hnext
    · obtain ⟨hholds, hselected, hpage, -⟩ := h.cell.lookup ((page.index : ℤ) - 1)
      refine ⟨hholds, hselected, fun next hnext => ⟨(hpage next hnext).2, ?_⟩⟩
      have := (hpage next hnext).1
      omega

variable [DecidableEq Color]

/-- The page that a completed swipe goes to. -/
def View.swipesTo (v : View Color) (direction : Direction) : Option (Page Color) :=
  v.shown.bind fun page => (v.pageBeside direction page).1

/-- A swipe that goes nowhere, or is not completed, changes the cell at most. -/
theorem Showing.swipe_stays (h : Showing titles texts v) {direction : Direction} {completed : Bool}
    (hstay : completed = false ∨ v.swipesTo direction = none) :
    ∃ horoscopesCell, v.swipe direction completed = { v with horoscopesCell } ∧ Holds texts horoscopesCell ∧
      horoscopesCell.selectedViewController = v.horoscopesCell.selectedViewController := by
  obtain ⟨page, hshown, -⟩ := h.shown
  obtain ⟨hholds, hselected, -⟩ := h.pageBeside direction page
  rcases hpair : v.pageBeside direction page with ⟨_ | next, cell⟩
  · rw [hpair] at hholds hselected
    exact ⟨cell, by simp only [View.swipe, hshown, hpair], hholds, hselected⟩
  · have hfalse : completed = false := by
      refine hstay.resolve_right fun hnone => ?_
      rw [View.swipesTo, hshown, Option.bind_some, hpair] at hnone
      cases hnone
    rw [hpair] at hholds hselected
    refine ⟨cell, ?_, hholds, hselected⟩
    simp only [View.swipe, hshown, hpair, hfalse, Bool.false_eq_true, if_false]

/-- A completed swipe: the page is shown, and the tab follows unless the cell
takes the page for the selected one already. -/
theorem Showing.swipe_goes (h : Showing titles texts v) (hlength : titles.length = texts.length)
    {direction : Direction} {next : Page Color} (hgoes : v.swipesTo direction = some next) :
    Showing titles texts (v.swipe direction true) ∧ (v.swipe direction true).shown = some next ∧
      (v.swipe direction true).animations = v.animations ∧
      (v.swipe direction true).horoscopesCell.selectedViewController = some next ∧
      (v.horoscopesCell.selectedViewController = some next →
        (v.swipe direction true).tabs.selectedIndex = v.tabs.selectedIndex) ∧
      (v.horoscopesCell.selectedViewController ≠ some next →
        (v.swipe direction true).tabs.selectedIndex = next.index) := by
  obtain ⟨page, hshown, -⟩ := h.shown
  obtain ⟨hholds, hselected, hnext⟩ := h.pageBeside direction page
  rw [View.swipesTo, hshown, Option.bind_some] at hgoes
  obtain ⟨hof, -⟩ := hnext next hgoes
  rcases hpair : v.pageBeside direction page with ⟨found, cell⟩
  rw [hpair] at hholds hselected hgoes
  obtain rfl : found = some next := hgoes
  change cell.selectedViewController = v.horoscopesCell.selectedViewController at hselected
  by_cases hsel : v.horoscopesCell.selectedViewController = some next
  · have hswipe : v.swipe direction true = { v with horoscopesCell := cell, shown := some next } := by
      simp only [View.swipe, hshown, hpair, if_true, hselected, hsel]
    rw [hswipe]
    exact ⟨⟨h.row, hholds, ⟨next, rfl, hof⟩, ⟨next, hselected.trans hsel, hof⟩, h.animations, h.hud,
      h.showNoConnectionView⟩, rfl, rfl, hselected.trans hsel, fun _ => rfl, fun hne => absurd hsel hne⟩
  · have hlt : next.index < titles.length := hlength ▸ hof.lt
    have hchosen := TabsRow.Tabs.setItemSelected_chosen (t := v.tabs) false (h.row.length ▸ hlt)
    have hswipe : v.swipe direction true =
        { v with
          horoscopesCell := { cell with selectedViewController := some next }
          shown := some next
          tabs := (v.tabs.setItemSelected next.index false).1
          dragged := false } := by
      simp only [View.swipe, hshown, hpair, if_true, hselected, hsel, if_false]
      rfl
    rw [hswipe]
    exact ⟨⟨h.row.chosen hchosen hlt (h.row.legible.setItemSelected _ _), ⟨hholds.same, hholds.pages⟩,
      ⟨next, rfl, hof⟩, ⟨next, rfl, hof⟩, h.animations, h.hud, h.showNoConnectionView⟩, rfl, rfl, rfl,
      fun heq => absurd heq hsel, fun _ => hchosen.selectedIndex⟩

theorem Showing.swipe (h : Showing titles texts v) (hlength : titles.length = texts.length)
    (direction : Direction) (completed : Bool) : Showing titles texts (v.swipe direction completed) := by
  by_cases hgoes : completed = true ∧ ∃ next, v.swipesTo direction = some next
  · obtain ⟨rfl, next, hnext⟩ := hgoes
    exact (h.swipe_goes hlength hnext).1
  · have hstay : completed = false ∨ v.swipesTo direction = none := by
      rcases completed with _ | _
      · exact .inl rfl
      · exact .inr (Option.eq_none_iff_forall_ne_some.mpr fun next hnext => hgoes ⟨rfl, next, hnext⟩)
    obtain ⟨cell, hswipe, hholds, hselected⟩ := h.swipe_stays hstay
    rw [hswipe]
    exact ⟨h.row, hholds, h.shown, hselected ▸ h.selected, h.animations, h.hud, h.showNoConnectionView⟩

end

/-! ### Before the data -/

/-- Nothing has been shown yet: the screen waits, or says that there is nothing. -/
structure Waiting (o : Int) (r : Replies) (v : View Color) : Prop where
  tabs : v.tabs = TabsRow.awakeFromNib
  pages : v.horoscopesCell.viewControllers = fun _ => none
  shown : v.shown = none
  animations : v.animations = []
  dragged : v.dragged = false
  hud : v.hud = !v.showNoConnectionView
  answered : v.showNoConnectionView = true → ∃ ti fetched, Answered r ti fetched ∧ tabsOf o ti fetched = []
  unanswered : v.showNoConnectionView = false → ∀ ti fetched, ¬ Answered r ti fetched

/-- The tabs of a model: titles and horoscopes. -/
abbrev TabList := List (String × PredictionScreen.HoroscopeDTO)

/-- The titles of the tabs of a model, in the language of the device. -/
def titlesOf (L : List Char → List Char) (tabs : TabList) : List (List Char) :=
  tabs.map fun tab => L tab.1.toList

def textsOf (tabs : TabList) : List (List Char) := tabs.map fun tab => tab.2.content.toList

theorem length_titlesOf (L : List Char → List Char) (tabs : TabList) :
    (titlesOf L tabs).length = (textsOf tabs).length := by
  rw [titlesOf, textsOf, List.length_map, List.length_map]

section

variable {o : Int} {L : List Char → List Char} {r : Replies} {v : View Color}
  {tabs : TabList}

/-- The items are there, and the tab of today is selected, or the only one. -/
theorem titled_tabsWithTitles {titles : List (List Char)} (hne : titles ≠ []) :
    Titled titles (View.tabsWithTitles TabsRow.awakeFromNib titles) false ∧
      (View.tabsWithTitles TabsRow.awakeFromNib titles).selectedIndex =
        if titles.length > 1 then 1 else 0 := by
  set row := TabsRow.awakeFromNib.setTitles titles with hrow
  have hlength : row.itemViews.length = titles.length := List.length_map ..
  have hpos : 0 < titles.length := List.length_pos_iff.mpr hne
  have hlegible : row.Legible := TabsRow.Tabs.setTitles_legible TabsRow.awakeFromNib titles
  have hselected : row.selectedIndex = 0 := by
    change (if (0 : ℕ) ≥ titles.length then 0 else 0) = 0
    rw [ite_self]
  by_cases hone : titles.length > 1
  · have htabs : View.tabsWithTitles TabsRow.awakeFromNib titles = (row.setItemSelected 1 false).1 :=
      if_pos hone
    have hlt : 1 < row.itemViews.length := hlength ▸ hone
    have hchosen := TabsRow.Tabs.setItemSelected_chosen (t := row) false hlt
    rw [htabs, if_pos hone]
    refine ⟨⟨hchosen.titles, hchosen.length.trans hlength, ?_, hchosen.raised, hchosen.visible hlt,
      hlegible.setItemSelected _ _, hchosen.pressed (hlegible.setItemSelected _ _),
      fun _ _ => hchosen.settled (hlegible.setItemSelected _ _)⟩, hchosen.selectedIndex⟩
    rw [hchosen.selectedIndex]
    exact hone
  · have htabs : View.tabsWithTitles TabsRow.awakeFromNib titles = row := if_neg hone
    rw [htabs, if_neg hone]
    have hpressed : row.Pressed := TabsRow.Tabs.setTitles_pressed TabsRow.awakeFromNib titles
    refine ⟨⟨rfl, hlength, hselected ▸ hpos, rfl, ?_, hlegible, hpressed, fun _ hne => ?_⟩, hselected⟩
    · have hleft : row.leftItemIndex = 0 := rfl
      rw [TabsRow.Tabs.Visible, hselected, hleft]
      decide
    · omega

/-- The callback with the tabs of a model. -/
def View.withTabs (L : List Char → List Char) (tabs : TabList) (v : View Color) :
    View Color :=
  v.dataFetched L (tabs.map Prod.fst) (tabs.map fun tab => tab.2.content)

/-- Titles and texts are shown for the first time. -/
structure Opened (L : List Char → List Char) (tabs : TabList) (v : View Color) :
    Prop where
  showing : Showing (titlesOf L tabs) (textsOf tabs) v
  agree : Agree v
  selected : v.shown = v.horoscopesCell.selectedViewController
  animations : v.animations = []
  selectedIndex : v.tabs.selectedIndex = if tabs.length > 1 then 1 else 0

/-- **The data arrive:** titles and texts are shown, and tab and page agree. -/
theorem Waiting.opened (h : Waiting o r v) (hno : v.showNoConnectionView = false) (hne : tabs ≠ []) :
    Opened L tabs (v.withTabs L tabs) := by
  have htitles : titlesOf L tabs ≠ [] := fun hnil => hne (List.map_eq_nil_iff.mp hnil)
  have htexts : textsOf tabs ≠ [] := fun hnil => hne (List.map_eq_nil_iff.mp hnil)
  obtain ⟨hrow, hselected⟩ := titled_tabsWithTitles htitles
  obtain ⟨page, hpage, hof, hindex, hholds, hsel⟩ := setTexts_holds (c := v.horoscopesCell) h.pages htexts
  rcases hpair : v.horoscopesCell.setTexts (textsOf tabs) with ⟨found, cell⟩
  rw [hpair] at hpage hholds hsel
  obtain rfl : found = some page := hpage
  have hdata : v.withTabs L tabs =
      { v with
        hud := false
        tabs := View.tabsWithTitles TabsRow.awakeFromNib (titlesOf L tabs)
        horoscopesCell := cell
        shown := some page } := by
    have hfst : (tabs.map Prod.fst) ≠ [] := fun hnil => hne (List.map_eq_nil_iff.mp hnil)
    have hsnd : (tabs.map fun tab => tab.2.content) ≠ [] := fun hnil => hne (List.map_eq_nil_iff.mp hnil)
    have hmap : (tabs.map fun tab => tab.2.content).map String.toList = textsOf tabs := List.map_map
    have hmap' : ((tabs.map Prod.fst).map fun string => L string.toList) = titlesOf L tabs := List.map_map
    simp only [View.withTabs, View.dataFetched, if_neg hfst, if_neg hsnd, hmap, hmap', hpair, h.tabs]
  have hlength : (titlesOf L tabs).length = tabs.length := List.length_map ..
  have hlength' : (textsOf tabs).length = tabs.length := List.length_map ..
  rw [hdata]
  refine ⟨⟨?_, hholds, ⟨page, rfl, hof⟩, ⟨page, hsel, hof⟩, ?_, rfl, hno⟩, ?_, hsel.symm, h.animations, ?_⟩
  · simp only [h.dragged]
    exact hrow
  · simp only [h.animations]
    exact fun _ hmem => nomatch hmem
  · intro page' hpage'
    obtain rfl := Option.some.inj hpage'
    simp only [hselected, hindex, hlength, hlength']
  · simp only [hselected, hlength]

end

/-! ### Every run -/

/-- What the screen shows of its model. -/
structure Inv (o : Int) (L : List Char → List Char) (s : Screen Color) : Prop where
  replies : (replies o).Reach EventSystem.anyEvent s.replies
  callback : s.replies.model.callback = s.view.isSome
  unloaded : s.view = none → s.replies.setInTime = false
  loaded : ∀ v, s.view = some v → Waiting o s.replies v ∨
    ∃ ti fetched, Answered s.replies ti fetched ∧ tabsOf o ti fetched ≠ [] ∧
      Showing (titlesOf L (tabsOf o ti fetched)) (textsOf (tabsOf o ti fetched)) v

section

variable {o : Int} {L : List Char → List Char} {s : Screen Color}

theorem inv_init : Inv o L (⟨constructed, none⟩ : Screen Color) where
  replies := ⟨constructed, rfl, .refl⟩
  callback := rfl
  unloaded _ := rfl
  loaded _ h := nomatch h

/-- The replies take a step of their own. -/
theorem reach_step {r : Replies} (h : (replies o).Reach EventSystem.anyEvent r) {e : ReplyEvent}
    (ha : (replies o).admits r e) : (replies o).Reach EventSystem.anyEvent ((replies o).step r e) := by
  obtain ⟨r₀, hinit, hreach⟩ := h
  exact ⟨r₀, hinit, hreach.step e ha trivial⟩

/-- A step that changes the view alone, while it shows something. -/
theorem Inv.view (h : Inv o L s) {v : View Color} (hv : s.view = some v) {f : View Color → View Color}
    (hwaiting : ¬ Waiting o s.replies v)
    (hstep : ∀ titles texts, titles.length = texts.length → Showing titles texts v →
      Showing titles texts (f v)) :
    Inv o L { s with view := s.view.map f } where
  replies := h.replies
  callback := by rw [h.callback, Option.isSome_map]
  unloaded hnone := by
    rw [hv] at hnone
    cases hnone
  loaded w hw := by
    rw [hv, Option.map_some] at hw
    obtain rfl := Option.some.inj hw
    rcases h.loaded v hv with hwait | ⟨ti, fetched, hanswered, hne, hshowing⟩
    · exact absurd hwait hwaiting
    · exact .inr ⟨ti, fetched, hanswered, hne, hstep _ _ (length_titlesOf L _) hshowing⟩

/-- A screen that waits offers nothing but the button. -/
theorem Waiting.offers {r : Replies} {v : View Color} (h : Waiting o r v) {e : Event Color}
    (he : Offers v e) :
    e = .noConnectionTapped := by
  have hitems : v.tabs.itemViews.length = 0 := by
    rw [h.tabs]
    rfl
  have hshown : ¬ v.shown.isSome := by
    rw [h.shown]
    exact Bool.false_ne_true
  cases e with
  | noConnectionTapped => rfl
  | shouldReceiveTouch index touch => exact absurd (hitems ▸ he) (Nat.not_lt_zero index)
  | cancelTouches index touches => exact absurd (hitems ▸ he) (Nat.not_lt_zero index)
  | tapped index => exact absurd (hitems ▸ he) (Nat.not_lt_zero index)
  | drag direction completed => exact absurd he hshown
  | swipe direction completed => exact absurd he hshown
  | animationFinished => exact absurd h.animations he
  | viewDidLoad fontColor backgroundColor => cases he
  | serverTime ti => cases he
  | horoscopesFetched fetched => cases he

theorem callback_reply {r : Replies} {e : ReplyEvent} (he : IsReply e) :
    ((replies o).step r e).model.callback = r.model.callback ∧
      ((replies o).step r e).setInTime = r.model.callback := by
  cases he with
  | serverTime ti =>
    refine ⟨?_, rfl⟩
    change (PredictionScreen.serverTime o ti r.model).callback = _
    unfold PredictionScreen.serverTime
    split
    · simp only
      split <;> rfl
    · rfl
  | horoscopesFetched fetched =>
    refine ⟨?_, rfl⟩
    change (PredictionScreen.horoscopesFetched o fetched r.model).callback = _
    unfold PredictionScreen.horoscopesFetched
    simp only
    split <;> rfl

/-- A reply finds a loaded screen waiting, and brings the tabs or nothing yet. -/
theorem Inv.arrives (h : Inv o L s) {e : ReplyEvent} (he : IsReply e)
    (ha : (PredictionScreen.replies o).admits s.replies e) {v : View Color} (hv : s.view = some v) :
    Waiting o s.replies v ∧ v.showNoConnectionView = false ∧
      ((∃ ti fetched, Answered ((PredictionScreen.replies o).step s.replies e) ti fetched ∧
          (PredictionView.reply o L s e).view = some (v.withTabs L (tabsOf o ti fetched))) ∨
        (∀ ti fetched, ¬ Answered ((PredictionScreen.replies o).step s.replies e) ti fetched) ∧
          (PredictionView.reply o L s e).view = some v) := by
  have hunanswered : ∀ ti fetched, ¬ Answered s.replies ti fetched := by
    intro ti fetched hanswered
    cases he with
    | serverTime ti' => cases hanswered.time.symm.trans ha
    | horoscopesFetched fetched' => cases hanswered.fetched.symm.trans ha
  rcases h.loaded v hv with hwait | ⟨ti, fetched, hanswered, -⟩
  swap
  · exact absurd hanswered (hunanswered ti fetched)
  refine ⟨hwait, ?_, ?_⟩
  · rw [Bool.eq_false_iff]
    intro hyes
    obtain ⟨ti, fetched, hanswered, -⟩ := hwait.answered hyes
    exact hunanswered ti fetched hanswered
  · rcases calls_of_reply h.replies he ha with
      ⟨ti, fetched, hanswered, hcalls, htitles, htexts⟩ | ⟨hun, hcalls⟩
    · refine .inl ⟨ti, fetched, hanswered, ?_⟩
      simp only [PredictionView.reply, if_neg hcalls, hv, Option.map_some, htitles, htexts, View.withTabs]
    · refine .inr ⟨hun, ?_⟩
      simp only [PredictionView.reply, if_pos hcalls, hv]

/-- A reply keeps what the screen shows. -/
theorem Inv.reply (h : Inv o L s) {e : ReplyEvent} (he : IsReply e)
    (ha : (PredictionScreen.replies o).admits s.replies e) : Inv o L (reply o L s e) := by
  obtain ⟨hcallback, hset⟩ := callback_reply (o := o) (r := s.replies) he
  have hreach := reach_step h.replies ha
  rcases hview : s.view with _ | v
  · -- nobody has set the callback
    have hnone : s.replies.model.callback = false := by rw [h.callback, hview, Option.isSome_none]
    have hsame : (PredictionView.reply o L s e).view = none := by
      unfold PredictionView.reply
      simp only [hview, Option.map_none, ite_self]
    refine ⟨hreach, ?_, fun _ => hset.trans hnone, fun v hv => ?_⟩
    · rw [hsame]
      exact hcallback.trans hnone
    · rw [hsame] at hv
      cases hv
  have hsome : s.replies.model.callback = true := by rw [h.callback, hview, Option.isSome_some]
  obtain ⟨hwait, hno, ⟨ti, fetched, hanswered, hnew⟩ | ⟨hun, hnew⟩⟩ := h.arrives he ha hview
  · refine ⟨hreach, ?_, fun hnone => (nomatch hnew.symm.trans hnone), fun w hw => ?_⟩
    · rw [hnew]
      exact hcallback.trans hsome
    · obtain rfl := Option.some.inj (hnew.symm.trans hw)
      by_cases hnil : tabsOf o ti fetched = []
      · refine .inl ?_
        rw [hnil]
        exact ⟨hwait.tabs, hwait.pages, hwait.shown, hwait.animations, hwait.dragged, rfl,
          fun _ => ⟨ti, fetched, hanswered, hnil⟩, fun hfalse => nomatch hfalse⟩
      · exact .inr ⟨ti, fetched, hanswered, hnil, (hwait.opened hno hnil).showing⟩
  · refine ⟨hreach, ?_, fun hnone => (nomatch hnew.symm.trans hnone), fun w hw => ?_⟩
    · rw [hnew]
      exact hcallback.trans hsome
    · obtain rfl := Option.some.inj (hnew.symm.trans hw)
      exact .inl ⟨hwait.tabs, hwait.pages, hwait.shown, hwait.animations, hwait.dragged, hwait.hud,
        fun hyes => (nomatch hno.symm.trans hyes), fun _ => hun⟩

/-- The screen is loaded. -/
theorem Inv.viewDidLoad (h : Inv o L s) (hview : s.view = none) (fontColor : Color)
    (backgroundColor : Option Color) :
    Inv o L
      { replies := (PredictionScreen.replies o).step s.replies (.setDataFetchedCallback true)
        view := some (.viewDidLoad fontColor backgroundColor) } where
  replies := reach_step (e := .setDataFetchedCallback true) h.replies trivial
  callback := rfl
  unloaded hnone := nomatch hnone
  loaded v hv := by
    obtain rfl := Option.some.inj hv
    refine .inl ⟨rfl, ?_, rfl, rfl, rfl, rfl, fun hyes => (nomatch hyes), fun _ ti fetched hanswered => ?_⟩
    · simp only [View.viewDidLoad]
      split <;> rfl
    · cases (h.unloaded hview).symm.trans hanswered.setInTime

/-- The button is tapped while it is shown, and the model loads again. -/
theorem Inv.noConnectionTapped (h : Inv o L s) {v : View Color} (hv : s.view = some v)
    (hoffer : Offers v .noConnectionTapped) :
    Inv o L
      { replies := (PredictionScreen.replies o).step s.replies .loadData
        view := s.view.map (·.noConnectionTapped) } := by
  have hyes : v.showNoConnectionView = true := by
    by_contra hno
    have hrows : Row.noConnectionCell ∈ v.rows := hoffer
    rw [View.rows, if_neg hno] at hrows
    exact absurd hrows (by decide)
  rcases h.loaded v hv with hwait | ⟨ti, fetched, -, -, hshowing⟩
  swap
  · exact absurd (hyes.symm.trans hshowing.showNoConnectionView) (by decide)
  obtain ⟨ti, fetched, hanswered, -⟩ := hwait.answered hyes
  have hadmits : (PredictionScreen.replies o).admits s.replies .loadData :=
    ⟨Option.isSome_of_eq_some hanswered.time, Option.isSome_of_eq_some hanswered.fetched⟩
  refine ⟨reach_step h.replies hadmits, ?_, ?_, ?_⟩
  · rw [Option.isSome_map]
    exact h.callback
  · intro _
    rfl
  · intro w hw
    rw [hv, Option.map_some] at hw
    obtain rfl := Option.some.inj hw
    exact .inl ⟨hwait.tabs, hwait.pages, hwait.shown, hwait.animations, hwait.dragged, rfl,
      fun hyes => (nomatch hyes), fun _ ti fetched hanswered => nomatch hanswered.time⟩

variable [DecidableEq Color]

/-- **Each step keeps what the screen shows of its model.** -/
theorem Inv.step (h : Inv o L s) (e : Event Color) (ha : (system o L).admits s e) :
    Inv o L ((system o L).step s e) := by
  cases e with
  | viewDidLoad fontColor backgroundColor => exact h.viewDidLoad ha fontColor backgroundColor
  | serverTime ti => exact h.reply (.serverTime ti) ha
  | horoscopesFetched fetched => exact h.reply (.horoscopesFetched fetched) ha
  | noConnectionTapped =>
    obtain ⟨v, hv, hoffer⟩ := ha
    exact h.noConnectionTapped hv hoffer
  | shouldReceiveTouch index touch =>
    obtain ⟨v, hv, hoffer⟩ := ha
    exact h.view hv (fun hwait => nomatch hwait.offers hoffer)
      fun _ _ _ hshowing => hshowing.shouldReceiveTouch touch hoffer
  | cancelTouches index touches =>
    obtain ⟨v, hv, hoffer⟩ := ha
    exact h.view hv (fun hwait => nomatch hwait.offers hoffer)
      fun _ _ _ hshowing => hshowing.cancelTouches touches hoffer
  | tapped index =>
    obtain ⟨v, hv, hoffer⟩ := ha
    exact h.view hv (fun hwait => nomatch hwait.offers hoffer)
      fun _ _ hlength hshowing => (hshowing.tapped hlength hoffer).1
  | drag direction completed =>
    obtain ⟨v, hv, hoffer⟩ := ha
    exact h.view hv (fun hwait => nomatch hwait.offers hoffer)
      fun _ _ _ hshowing => hshowing.draggingProgress direction completed
  | swipe direction completed =>
    obtain ⟨v, hv, hoffer⟩ := ha
    exact h.view hv (fun hwait => nomatch hwait.offers hoffer)
      fun _ _ hlength hshowing => hshowing.swipe hlength direction completed
  | animationFinished =>
    obtain ⟨v, hv, hoffer⟩ := ha
    exact h.view hv (fun hwait => nomatch hwait.offers hoffer)
      fun _ _ _ hshowing => hshowing.animationFinished

theorem inv_of_reach (h : (system o L).Reach EventSystem.anyEvent s) : Inv o L s := by
  refine h.inv ?_ fun t e ht ha _ => ht.step e ha
  rintro t rfl
  exact inv_init

end

section

variable {o : Int} {L : List Char → List Char} {s : Screen Color} [DecidableEq Color]

/-- **The screen shows what its model has made of the two replies**, in every
order of the events: from the second reply on, if it has found the callback,
either the tabs with the texts or that there is nothing; until then, and again
after the button is tapped, the progress. No item is looked up that is not there. -/
theorem shows_of_reach (h : (system o L).Reach EventSystem.anyEvent s) {v : View Color}
    (hv : s.view = some v) :
    (∀ ti fetched, Answered s.replies ti fetched → v.hud = false ∧
        (Row.noConnectionCell ∈ v.rows ↔ tabsOf o ti fetched = []) ∧
        (tabsOf o ti fetched ≠ [] → v.tabs.titles = titlesOf L (tabsOf o ti fetched) ∧
          ∃ page, v.shown = some page ∧ (textsOf (tabsOf o ti fetched))[page.index]? = some page.text)) ∧
      ((∀ ti fetched, ¬ Answered s.replies ti fetched) → v.hud = true ∧ Row.noConnectionCell ∉ v.rows) ∧
      v.tabs.raised = false := by
  have hrows : Row.noConnectionCell ∈ v.rows ↔ v.showNoConnectionView = true := by
    unfold View.rows
    cases v.showNoConnectionView <;> decide
  rw [hrows]
  rcases (inv_of_reach h).loaded v hv with hwait | ⟨ti, fetched, hanswered, hne, hshowing⟩
  · refine ⟨fun ti fetched hanswered => ?_, fun hun => ?_, by rw [hwait.tabs]; rfl⟩
    · have hyes : v.showNoConnectionView = true := by
        by_contra hno
        exact hwait.unanswered (Bool.eq_false_iff.mpr hno) ti fetched hanswered
      obtain ⟨ti', fetched', hanswered', hnil⟩ := hwait.answered hyes
      obtain rfl := Option.some.inj (hanswered.time.symm.trans hanswered'.time)
      obtain rfl := Option.some.inj (hanswered.fetched.symm.trans hanswered'.fetched)
      refine ⟨?_, iff_of_true hyes hnil, fun hne => absurd hnil hne⟩
      rw [hwait.hud, hyes]
      rfl
    · have hno : v.showNoConnectionView = false := by
        rw [Bool.eq_false_iff]
        intro hyes
        obtain ⟨ti, fetched, hanswered, -⟩ := hwait.answered hyes
        exact hun ti fetched hanswered
      rw [hwait.hud, hno]
      exact ⟨rfl, Bool.false_ne_true⟩
  · refine ⟨fun ti' fetched' hanswered' => ?_, fun hun => absurd hanswered (hun ti fetched),
      hshowing.row.raised⟩
    obtain rfl := Option.some.inj (hanswered.time.symm.trans hanswered'.time)
    obtain rfl := Option.some.inj (hanswered.fetched.symm.trans hanswered'.fetched)
    refine ⟨hshowing.hud, iff_of_false ?_ hne, fun _ => ⟨hshowing.row.same, hshowing.shown⟩⟩
    rw [hshowing.showNoConnectionView]
    exact Bool.false_ne_true

end

/-! ### The tab that is opened -/

/-- The horoscope has a text to show. -/
def written (horoscope : Option PredictionScreen.HoroscopeDTO) : Bool :=
  match horoscope with
  | none => false
  | some h => h.content ≠ ""

theorem shown_titles : ∀ all : List (String × Option PredictionScreen.HoroscopeDTO),
    (shown all).map Prod.fst = ((all.map fun tab => (tab.1, written tab.2)).filter Prod.snd).map Prod.fst
  | [] => rfl
  | (title, none) :: all => by
    have ih := shown_titles all
    simpa [shown, written] using ih
  | (title, some h) :: all => by
    have ih := shown_titles all
    by_cases hempty : h.content = ""
    · simpa [shown, written, hempty] using ih
    · simpa [shown, written, hempty] using ih

/-- The title of the second tab, or of the only one. -/
theorem opened_title (yesterday today tomorrow week month year : Bool) :
    let titles := ([("yesterday", yesterday), ("today", today), ("tomorrow", tomorrow), ("week", week),
      ("month", month), ("year", year)].filter Prod.snd).map Prod.fst
    titles[if titles.length > 1 then 1 else 0]? = some "today" ↔
      today = true ∧
        (yesterday = true ∨ tomorrow = false ∧ week = false ∧ month = false ∧ year = false) := by
  revert yesterday today tomorrow week month year
  decide +kernel

section

variable {o : Int} {L : List Char → List Char} {s : Screen Color} [DecidableEq Color]

/-- **The reply that brings the tabs opens the one of today exactly if** there
is a text for today, and one for yesterday or no other at all: the screen opens
the second tab, whichever it is. -/
theorem opens_today_iff (h : (system o L).Reach EventSystem.anyEvent s) {v : View Color}
    (hv : s.view = some v) {e : ReplyEvent} (he : IsReply e) (ha : (replies o).admits s.replies e) {ti : ℚ}
    {fetched : PredictionScreen.Horoscopes} (hanswered : Answered ((replies o).step s.replies e) ti fetched)
    (hne : tabsOf o ti fetched ≠ []) :
    ∃ opened, (reply o L s e).view = some opened ∧ Agree opened ∧
      (((tabsOf o ti fetched).map Prod.fst)[opened.tabs.selectedIndex]? = some "today" ↔
        let new := newHoroscopes o ((timestamps o ti).getD .zero) fetched
        written new.today = true ∧ (written new.yesterday = true ∨ written new.tomorrow = false ∧
          written new.week = false ∧ written new.month = false ∧ written new.year = false)) := by
  obtain ⟨hwait, hno, ⟨ti', fetched', hanswered', hview⟩ | ⟨hun, -⟩⟩ := (inv_of_reach h).arrives he ha hv
  swap
  · exact absurd hanswered (hun ti fetched)
  obtain rfl := Option.some.inj (hanswered.time.symm.trans hanswered'.time)
  obtain rfl := Option.some.inj (hanswered.fetched.symm.trans hanswered'.fetched)
  have hopened : Opened L (tabsOf o ti fetched) (v.withTabs L (tabsOf o ti fetched)) := hwait.opened hno hne
  refine ⟨_, hview, hopened.agree, ?_⟩
  have htitles : (tabsOf o ti fetched).map Prod.fst =
      (((chosen o ti fetched).map fun tab => (tab.1, written tab.2)).filter Prod.snd).map Prod.fst :=
    shown_titles (chosen o ti fetched)
  have hlength : (tabsOf o ti fetched).length = ((tabsOf o ti fetched).map Prod.fst).length :=
    (List.length_map ..).symm
  rw [hopened.selectedIndex, hlength, htitles]
  exact opened_title ..

end

/-! ### A day in November -/

/-- The screen is loaded, and the time has arrived. -/
def waited : Screen Unit :=
  (system 3600 id).exec ⟨constructed, none⟩ [.viewDidLoad () none, .serverTime 1509879600]

/-- The horoscopes have arrived as well. -/
def opened : Screen Unit := (system 3600 id).step waited (.horoscopesFetched november)

theorem waited_reached : (system 3600 id).Reach EventSystem.anyEvent waited :=
  ⟨_, rfl, EventSystem.ReachFrom.exec _ _ ⟨⟨rfl, trivial⟩, ⟨rfl, trivial⟩, trivial⟩⟩

theorem opened_reached : (system 3600 id).Reach EventSystem.anyEvent opened := by
  obtain ⟨s, hinit, hreach⟩ := waited_reached
  exact ⟨s, hinit, hreach.step (Event.horoscopesFetched november) rfl trivial⟩

/-- The callback has been set by the view. -/
theorem Inv.exists_view {o : Int} {L : List Char → List Char} {s : Screen Unit} (h : Inv o L s)
    (hcallback : s.replies.model.callback = true) : ∃ v, s.view = some v :=
  Option.isSome_iff_exists.mp (h.callback ▸ hcallback)

theorem opened_view : ∃ v, opened.view = some v :=
  (inv_of_reach opened_reached).exists_view (by decide +kernel)

theorem opened_answered : Answered opened.replies 1509879600 november := ⟨rfl, rfl, by decide +kernel⟩

theorem november_tabs : (tabsOf 3600 1509879600 november).map Prod.fst =
    ["yesterday", "today", "tomorrow", "week", "month"] := by decide +kernel

theorem november_ne : tabsOf 3600 1509879600 november ≠ [] := by
  intro hnil
  have htabs := november_tabs
  rw [hnil] at htabs
  cases htabs

theorem november_shown : ∃ v, opened.view = some v ∧ v.hud = false ∧ Row.noConnectionCell ∉ v.rows ∧
    v.tabs.titles = titlesOf id (tabsOf 3600 1509879600 november) := by
  obtain ⟨v, hv⟩ := opened_view
  obtain ⟨hhud, hrows, htitles⟩ := (shows_of_reach opened_reached hv).1 _ _ opened_answered
  exact ⟨v, hv, hhud, fun hmem => november_ne (hrows.mp hmem), (htitles november_ne).1⟩

theorem november_opens_today : ∃ v, opened.view = some v ∧
    ((tabsOf 3600 1509879600 november).map Prod.fst)[v.tabs.selectedIndex]? = some "today" := by
  obtain ⟨v, hv⟩ := (inv_of_reach waited_reached).exists_view (by decide +kernel)
  obtain ⟨v', hv', -, htoday⟩ := opens_today_iff waited_reached hv (.horoscopesFetched november) rfl
    opened_answered november_ne
  exact ⟨v', hv', htoday.mpr (by decide +kernel)⟩

end PredictionView
end Horo
