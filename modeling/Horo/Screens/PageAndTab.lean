/-
# Tab and page of the prediction screen

The cell takes a page for the selected one when its animation has ended. A tap
on the tab of that page finds nothing to do, although another page is on its
way; a swipe to it does not tell the tabs.

Key definitions: `Returns`, `Patient`.
Key theorems: `agree_step`, `agree_iff_run`, `agree_of_patient`, `back_disagrees`.
-/
import Horo.Screens.PredictionView

namespace Horo
namespace PredictionView

open Lib PredictionScreen
open HoroscopesCell (Page)

section

variable {Color : Type*} [DecidableEq Color]

/-- Whatever the screen shows, tab and page belong together. -/
def AgreeAt (s : Screen Color) : Prop := ∀ v, s.view = some v → Agree v

/-- The step goes back to the page that the cell takes for the selected one:
a tap from another tab, or a swipe. -/
def Returns (s : Screen Color) : Event Color → Prop
  | .tapped index => ∃ v page, s.view = some v ∧ v.horoscopesCell.selectedViewController = some page ∧
      page.index = index ∧ v.tabs.selectedIndex ≠ index
  | .swipe direction completed => ∃ v page, s.view = some v ∧ completed = true ∧
      v.swipesTo direction = some page ∧ v.horoscopesCell.selectedViewController = some page
  | _ => False

/-- A tap or a swipe waits until the animations have ended. -/
def Patient (s : Screen Color) : Event Color → Prop
  | .tapped _ => ∀ v, s.view = some v → v.animations = []
  | .swipe _ _ => ∀ v, s.view = some v → v.animations = []
  | _ => True

variable {o : Int} {L : List Char → List Char} {s : Screen Color}

omit [DecidableEq Color] in
theorem agree_of_kept {v v' : View Color} (h : Agree v) (hshown : v'.shown = v.shown)
    (hselected : v'.tabs.selectedIndex = v.tabs.selectedIndex) : Agree v' := by
  intro page hpage
  rw [hselected]
  exact h page (hshown ▸ hpage)

omit [DecidableEq Color] in
theorem agreeAt_map {v : View Color} (hv : s.view = some v) {f : View Color → View Color} :
    AgreeAt { s with view := s.view.map f } ↔ Agree (f v) := by
  unfold AgreeAt
  simp only [hv, Option.map_some, Option.some.injEq, forall_eq']

omit [DecidableEq Color] in
/-- What is shown when something is offered that is not the button. -/
theorem Inv.showing (h : Inv o L s) {v : View Color} (hv : s.view = some v) {e : Event Color}
    (he : Offers v e) (hne : e ≠ .noConnectionTapped) :
    ∃ titles texts, titles.length = texts.length ∧ Showing titles texts v := by
  rcases h.loaded v hv with hwait | ⟨ti, fetched, -, -, hshowing⟩
  · exact absurd (hwait.offers he) hne
  · exact ⟨_, _, length_titlesOf L _, hshowing⟩

omit [DecidableEq Color] in
/-- A tap keeps tab and page together exactly if it does not go back. -/
theorem agree_tapped (h : Inv o L s) {v : View Color} (hv : s.view = some v) (hagree : Agree v) {index : ℕ}
    (hoffer : Offers v (.tapped index)) : Agree (v.tapped index) ↔ ¬ Returns s (.tapped index) := by
  obtain ⟨titles, texts, hlength, hshowing⟩ := h.showing hv hoffer (by simp)
  obtain ⟨-, hselected, hpages⟩ := hshowing.tapped hlength hoffer
  obtain ⟨page, hpage, -⟩ := hshowing.selected
  obtain ⟨hgoes, hstays⟩ := hpages page hpage
  obtain ⟨current, hcurrent, -⟩ := hshowing.shown
  have hindex := hagree current hcurrent
  have hreturns : Returns s (.tapped index) ↔ page.index = index ∧ v.tabs.selectedIndex ≠ index := by
    constructor
    · rintro ⟨v', page', hv', hpage', hrest⟩
      obtain rfl := Option.some.inj (hv.symm.trans hv')
      obtain rfl := Option.some.inj (hpage.symm.trans hpage')
      exact hrest
    · exact fun hrest => ⟨v, page, hv, hpage, hrest⟩
  rw [hreturns]
  by_cases hstay : v.tabs.selectedIndex = index
  · refine iff_of_true (agree_of_kept hagree (hstays (.inl hstay)).1 (hselected.trans hstay.symm)) ?_
    exact fun hback => hback.2 hstay
  by_cases hback : page.index = index
  · -- the tab has changed, and the page has not
    refine iff_of_false (fun hnew => hstay ?_) (not_not.mpr ⟨hback, hstay⟩)
    rw [← hindex, ← hselected]
    exact hnew current ((hstays (.inr hback)).1.trans hcurrent)
  · obtain ⟨next, hshown, hnext, -⟩ := hgoes ⟨hstay, hback⟩
    refine iff_of_true (fun shown hshown' => ?_) fun hboth => hback hboth.1
    obtain rfl := Option.some.inj (hshown.symm.trans hshown')
    rw [hnext, hselected]

/-- So does a swipe. -/
theorem agree_swipe (h : Inv o L s) {v : View Color} (hv : s.view = some v) (hagree : Agree v)
    {direction : TabsRow.Direction} {completed : Bool} (hoffer : Offers v (.swipe direction completed)) :
    Agree (v.swipe direction completed) ↔ ¬ Returns s (.swipe direction completed) := by
  obtain ⟨titles, texts, hlength, hshowing⟩ := h.showing hv hoffer (by simp)
  have hreturns : Returns s (.swipe direction completed) ↔ completed = true ∧
      ∃ page, v.swipesTo direction = some page ∧ v.horoscopesCell.selectedViewController = some page := by
    constructor
    · rintro ⟨v', page, hv', hcompleted, hrest⟩
      obtain rfl := Option.some.inj (hv.symm.trans hv')
      exact ⟨hcompleted, page, hrest⟩
    · rintro ⟨hcompleted, page, hrest⟩
      exact ⟨v, page, hv, hcompleted, hrest⟩
  rw [hreturns]
  obtain ⟨current, hcurrent, -⟩ := hshowing.shown
  by_cases hgoes : completed = true ∧ ∃ next, v.swipesTo direction = some next
  swap
  · have hstay : completed = false ∨ v.swipesTo direction = none := by
      rcases completed with _ | _
      · exact .inl rfl
      · exact .inr (Option.eq_none_iff_forall_ne_some.mpr fun next hnext => hgoes ⟨rfl, next, hnext⟩)
    obtain ⟨cell, hswipe, -⟩ := hshowing.swipe_stays hstay
    rw [hswipe]
    refine iff_of_true (agree_of_kept hagree rfl rfl) ?_
    rintro ⟨hcompleted, page, hpage, -⟩
    exact hgoes ⟨hcompleted, page, hpage⟩
  obtain ⟨rfl, next, hnext⟩ := hgoes
  obtain ⟨-, hshown, -, -, hsame, hother⟩ := hshowing.swipe_goes hlength hnext
  by_cases hsel : v.horoscopesCell.selectedViewController = some next
  · refine iff_of_false (fun hnew => ?_) (not_not.mpr ⟨rfl, next, hnext, hsel⟩)
    -- the page has changed, and the tab has not
    have hne : next.index ≠ current.index := by
      rw [View.swipesTo, hcurrent, Option.bind_some] at hnext
      exact ((hshowing.pageBeside direction current).2.2 next hnext).2
    apply hne
    rw [hagree current hcurrent, ← hsame hsel]
    exact hnew next hshown
  · refine iff_of_true (fun shown hshown' => ?_) ?_
    · obtain rfl := Option.some.inj (hshown.symm.trans hshown')
      exact (hother hsel).symm
    · rintro ⟨-, page, hpage, hsel'⟩
      obtain rfl := Option.some.inj (hnext.symm.trans hpage)
      exact hsel hsel'

omit [DecidableEq Color] in
/-- A reply brings the tabs together with their page, or changes nothing. -/
theorem agree_reply (h : Inv o L s) (hagree : AgreeAt s) {e : ReplyEvent} (he : IsReply e)
    (ha : (replies o).admits s.replies e) : AgreeAt (reply o L s e) := by
  intro v hv
  rcases hview : s.view with _ | w
  · simp only [reply, hview, Option.map_none, ite_self] at hv
    cases hv
  obtain ⟨hwait, hno, ⟨ti, fetched, -, hnew⟩ | ⟨-, hnew⟩⟩ := h.arrives he ha hview
  · obtain rfl := Option.some.inj (hnew.symm.trans hv)
    by_cases hnil : tabsOf o ti fetched = []
    · rw [hnil]
      exact agree_of_kept (hagree w hview) rfl rfl
    · exact (Waiting.opened (L := L) hwait hno hnil).agree
  · obtain rfl := Option.some.inj (hnew.symm.trans hv)
    exact hagree w hview

/-- **A step keeps tab and page together exactly if it does not go back** to
the page that the cell takes for the selected one. -/
theorem agree_step (h : Inv o L s) (hagree : AgreeAt s) (e : Event Color) (ha : (system o L).admits s e) :
    AgreeAt ((system o L).step s e) ↔ ¬ Returns s e := by
  cases e with
  | viewDidLoad fontColor backgroundColor =>
    refine iff_of_true (fun v hv page hpage => ?_) id
    obtain rfl := Option.some.inj hv
    cases hpage
  | serverTime ti => exact iff_of_true (agree_reply h hagree (.serverTime ti) ha) id
  | horoscopesFetched fetched => exact iff_of_true (agree_reply h hagree (.horoscopesFetched fetched) ha) id
  | noConnectionTapped =>
    obtain ⟨v, hv, -⟩ := ha
    refine iff_of_true (fun w hw => ?_) id
    change s.view.map _ = some w at hw
    rw [hv, Option.map_some] at hw
    obtain rfl := Option.some.inj hw
    exact agree_of_kept (hagree v hv) rfl rfl
  | shouldReceiveTouch index touch =>
    obtain ⟨v, hv, hoffer⟩ := ha
    obtain ⟨titles, texts, -, hshowing⟩ := h.showing hv hoffer (by simp)
    have hkept := TabsRow.Tabs.shouldReceiveTouch_kept touch hoffer hshowing.row.selected_lt
    exact iff_of_true ((agreeAt_map hv).mpr (agree_of_kept (hagree v hv) rfl hkept.selectedIndex)) id
  | cancelTouches index touches =>
    obtain ⟨v, hv, hoffer⟩ := ha
    obtain ⟨titles, texts, -, hshowing⟩ := h.showing hv hoffer (by simp)
    have hkept := TabsRow.Tabs.cancelTouches_kept touches hoffer hshowing.row.selected_lt
    exact iff_of_true ((agreeAt_map hv).mpr (agree_of_kept (hagree v hv) rfl hkept.selectedIndex)) id
  | tapped index =>
    obtain ⟨v, hv, hoffer⟩ := ha
    exact (agreeAt_map hv).trans (agree_tapped h hv (hagree v hv) hoffer)
  | drag direction completed =>
    obtain ⟨v, hv, hoffer⟩ := ha
    obtain ⟨titles, texts, -, hshowing⟩ := h.showing hv hoffer (by simp)
    refine iff_of_true ((agreeAt_map hv).mpr ?_) id
    unfold View.draggingProgress
    split
    · have hkept := TabsRow.Tabs.animateSelection_kept direction completed hshowing.row.selected_lt
      exact agree_of_kept (hagree v hv) rfl hkept.selectedIndex
    · exact hagree v hv
  | swipe direction completed =>
    obtain ⟨v, hv, hoffer⟩ := ha
    exact (agreeAt_map hv).trans (agree_swipe h hv (hagree v hv) hoffer)
  | animationFinished =>
    obtain ⟨v, hv, -⟩ := ha
    refine iff_of_true ((agreeAt_map hv).mpr ?_) id
    unfold View.animationFinished
    split
    · exact hagree v hv
    · exact agree_of_kept (hagree v hv) rfl rfl

omit [DecidableEq Color] in
theorem agreeAt_init : AgreeAt (⟨constructed, none⟩ : Screen Color) := fun _ hv => nomatch hv

/-- **All along a run tab and page belong together exactly if** no step of it
goes back to the page that the cell takes for the selected one. -/
theorem agree_iff_run {es : List (Event Color)}
    (h : (system o L).Run EventSystem.anyEvent ⟨constructed, none⟩ es) :
    (∀ es', es' <+: es → AgreeAt ((system o L).exec ⟨constructed, none⟩ es')) ↔
      (system o L).Run (fun s e => ¬ Returns s e) ⟨constructed, none⟩ es :=
  EventSystem.forall_prefix_iff_run (fun _ e hi ha => hi.step e ha)
    (fun _ e hi hagree ha => agree_step hi hagree e ha) inv_init agreeAt_init h

/-! ### Taps and swipes that wait -/

/-- The page that is shown is that of the last animation, or the selected one. -/
def Follows (v : View Color) : Prop :=
  ∀ page, v.shown = some page →
    (v.animations.getLast?).or v.horoscopesCell.selectedViewController = some page

omit [DecidableEq Color] in
theorem follows_of_kept {v v' : View Color} (h : Follows v) (hshown : v'.shown = v.shown)
    (hanimations : v'.animations = v.animations)
    (hselected : v'.horoscopesCell.selectedViewController = v.horoscopesCell.selectedViewController) :
    Follows v' := by
  intro page hpage
  rw [hanimations, hselected]
  exact h page (hshown ▸ hpage)

omit [DecidableEq Color] in
theorem Follows.selected {v : View Color} (h : Follows v) (hidle : v.animations = []) {page : Page Color}
    (hpage : v.shown = some page) : v.horoscopesCell.selectedViewController = some page := by
  have := h page hpage
  rwa [hidle] at this

omit [DecidableEq Color] in
/-- The animation that ends makes its page the selected one. -/
theorem Follows.animationFinished {v : View Color} (h : Follows v) : Follows v.animationFinished := by
  unfold View.animationFinished
  rcases hanimations : v.animations with _ | ⟨first, rest⟩
  · exact h
  · intro page hpage
    have hlast := h page hpage
    rw [hanimations, List.getLast?_cons, Option.some_or] at hlast
    rw [← hlast]
    change (rest.getLast?).or (some first) = _
    rcases rest.getLast? with _ | last <;> rfl

omit [DecidableEq Color] in
/-- A tap while nothing moves. -/
theorem Follows.tapped {titles texts : List (List Char)} {v : View Color} (h : Follows v)
    (hshowing : Showing titles texts v) (hlength : titles.length = texts.length) (hidle : v.animations = [])
    {index : ℕ} (hoffer : index < v.tabs.itemViews.length) : Follows (v.tapped index) := by
  obtain ⟨-, -, hpages⟩ := hshowing.tapped hlength hoffer
  obtain ⟨page, hpage, -⟩ := hshowing.selected
  obtain ⟨hgoes, hstays⟩ := hpages page hpage
  by_cases hmove : v.tabs.selectedIndex ≠ index ∧ page.index ≠ index
  · obtain ⟨next, hshown, -, hanimations, -⟩ := hgoes hmove
    intro shown hshown'
    rw [hanimations, hidle, List.nil_append, List.getLast?_singleton, Option.some_or, ← hshown, hshown']
  · have hmove' : v.tabs.selectedIndex = index ∨ page.index = index := by
      by_contra hboth
      exact hmove (not_or.mp hboth)
    obtain ⟨hshown, hanimations, hselected⟩ := hstays hmove'
    exact follows_of_kept h hshown hanimations (hselected.trans hpage.symm)

/-- A swipe while nothing moves. -/
theorem Follows.swipe {titles texts : List (List Char)} {v : View Color} (h : Follows v)
    (hshowing : Showing titles texts v) (hlength : titles.length = texts.length) (hidle : v.animations = [])
    (direction : TabsRow.Direction) (completed : Bool) : Follows (v.swipe direction completed) := by
  by_cases hgoes : completed = true ∧ ∃ next, v.swipesTo direction = some next
  · obtain ⟨rfl, next, hnext⟩ := hgoes
    obtain ⟨-, hshown, hanimations, hselected, -⟩ := hshowing.swipe_goes hlength hnext
    intro page hpage
    rw [hanimations, hidle, hselected, List.getLast?_nil, Option.none_or, ← hshown, hpage]
  · have hstay : completed = false ∨ v.swipesTo direction = none := by
      rcases completed with _ | _
      · exact .inl rfl
      · exact .inr (Option.eq_none_iff_forall_ne_some.mpr fun next hnext => hgoes ⟨rfl, next, hnext⟩)
    obtain ⟨cell, hswipe, -, hselected⟩ := hshowing.swipe_stays hstay
    rw [hswipe]
    exact follows_of_kept h rfl rfl hselected

/-- Nothing goes back while nothing moves. -/
theorem not_returns (h : Inv o L s) (hagree : AgreeAt s) (hfollows : ∀ v, s.view = some v → Follows v)
    {e : Event Color} (ha : (system o L).admits s e) (hpatient : Patient s e) : ¬ Returns s e := by
  intro hreturns
  cases e with
  | tapped index =>
    obtain ⟨v, page, hv, hpage, rfl, hne⟩ := hreturns
    obtain ⟨v', hv', hoffer⟩ := ha
    obtain rfl := Option.some.inj (hv.symm.trans hv')
    obtain ⟨titles, texts, -, hshowing⟩ := h.showing hv hoffer (by simp)
    obtain ⟨current, hcurrent, -⟩ := hshowing.shown
    have hsel := (hfollows v hv).selected (hpatient v hv) hcurrent
    obtain rfl := Option.some.inj (hpage.symm.trans hsel)
    exact hne (hagree v hv page hcurrent).symm
  | swipe direction completed =>
    obtain ⟨v, page, hv, -, hgoes, hpage⟩ := hreturns
    obtain ⟨v', hv', hoffer⟩ := ha
    obtain rfl := Option.some.inj (hv.symm.trans hv')
    obtain ⟨titles, texts, -, hshowing⟩ := h.showing hv hoffer (by simp)
    obtain ⟨current, hcurrent, -⟩ := hshowing.shown
    have hsel := (hfollows v hv).selected (hpatient v hv) hcurrent
    obtain rfl := Option.some.inj (hpage.symm.trans hsel)
    rw [View.swipesTo, hcurrent, Option.bind_some] at hgoes
    exact ((hshowing.pageBeside direction page).2.2 page hgoes).2 rfl
  | _ => exact hreturns

theorem follows_step (h : Inv o L s) (hfollows : ∀ v, s.view = some v → Follows v) (e : Event Color)
    (ha : (system o L).admits s e) (hpatient : Patient s e) :
    ∀ v, ((system o L).step s e).view = some v → Follows v := by
  have hmap : ∀ {v : View Color} {f : View Color → View Color}, s.view = some v → Follows (f v) →
      ∀ w, s.view.map f = some w → Follows w := by
    intro v f hv hf w hw
    rw [hv, Option.map_some] at hw
    exact Option.some.inj hw ▸ hf
  have hreply : ∀ {e : ReplyEvent}, IsReply e → (replies o).admits s.replies e →
      ∀ w, (reply o L s e).view = some w → Follows w := by
    intro e he hadmits w hw
    rcases hview : s.view with _ | v
    · simp only [reply, hview, Option.map_none, ite_self] at hw
      cases hw
    obtain ⟨hwait, hno, ⟨ti, fetched, -, hnew⟩ | ⟨-, hnew⟩⟩ := h.arrives he hadmits hview
    · obtain rfl := Option.some.inj (hnew.symm.trans hw)
      by_cases hnil : tabsOf o ti fetched = []
      · rw [hnil]
        exact follows_of_kept (hfollows v hview) rfl rfl rfl
      · have hopened := Waiting.opened (L := L) hwait hno hnil
        intro page hpage
        rw [hopened.animations, List.getLast?_nil, Option.none_or, ← hopened.selected, hpage]
    · obtain rfl := Option.some.inj (hnew.symm.trans hw)
      exact hfollows v hview
  cases e with
  | viewDidLoad fontColor backgroundColor =>
    intro v hv page hpage
    obtain rfl := Option.some.inj hv
    cases hpage
  | serverTime ti => exact hreply (.serverTime ti) ha
  | horoscopesFetched fetched => exact hreply (.horoscopesFetched fetched) ha
  | noConnectionTapped =>
    obtain ⟨v, hv, -⟩ := ha
    exact hmap hv (follows_of_kept (hfollows v hv) rfl rfl rfl)
  | shouldReceiveTouch index touch =>
    obtain ⟨v, hv, -⟩ := ha
    exact hmap hv (follows_of_kept (hfollows v hv) rfl rfl rfl)
  | cancelTouches index touches =>
    obtain ⟨v, hv, -⟩ := ha
    exact hmap hv (follows_of_kept (hfollows v hv) rfl rfl rfl)
  | tapped index =>
    obtain ⟨v, hv, hoffer⟩ := ha
    obtain ⟨titles, texts, hlength, hshowing⟩ := h.showing hv hoffer (by simp)
    exact hmap hv ((hfollows v hv).tapped hshowing hlength (hpatient v hv) hoffer)
  | drag direction completed =>
    obtain ⟨v, hv, -⟩ := ha
    refine hmap hv ?_
    unfold View.draggingProgress
    split
    · exact follows_of_kept (hfollows v hv) rfl rfl rfl
    · exact hfollows v hv
  | swipe direction completed =>
    obtain ⟨v, hv, hoffer⟩ := ha
    obtain ⟨titles, texts, hlength, hshowing⟩ := h.showing hv hoffer (by simp)
    exact hmap hv ((hfollows v hv).swipe hshowing hlength (hpatient v hv) direction completed)
  | animationFinished =>
    obtain ⟨v, hv, -⟩ := ha
    exact hmap hv (hfollows v hv).animationFinished

/-- What a patient run keeps. -/
structure Together (o : Int) (L : List Char → List Char) (s : Screen Color) : Prop where
  inv : Inv o L s
  agree : AgreeAt s
  follows : ∀ v, s.view = some v → Follows v

theorem together_of_patient (h : (system o L).Reach Patient s) : Together o L s := by
  refine h.inv ?_ fun t e ht ha hpatient => ?_
  · rintro t rfl
    exact ⟨inv_init, agreeAt_init, fun _ hv => nomatch hv⟩
  · have hstays := not_returns ht.inv ht.agree ht.follows ha hpatient
    exact ⟨ht.inv.step e ha, (agree_step ht.inv ht.agree e ha).mpr hstays,
      follows_step ht.inv ht.follows e ha hpatient⟩

/-- **While taps and swipes wait for the animations, tab and page belong
together**, whatever else happens between them. -/
theorem agree_of_patient (h : (system o L).Reach Patient s) {v : View Color} (hv : s.view = some v)
    {page : Page Color} (hpage : v.shown = some page) : page.index = v.tabs.selectedIndex :=
  (together_of_patient h).agree v hv page hpage

/-- **A tap back that does not wait parts them:** after taps and swipes that
have waited, from any screen that rests, a tap on another tab and one on the tab
of before leave the old tab with the page of the other. -/
theorem back_disagrees (h : (system o L).Reach Patient s) {v : View Color} (hv : s.view = some v)
    (hidle : v.animations = []) {index : ℕ} (hoffer : index < v.tabs.itemViews.length)
    (hne : index ≠ v.tabs.selectedIndex) :
    ∃ v' page, ((system o L).exec s [.tapped index, .tapped v.tabs.selectedIndex]).view = some v' ∧
      v'.tabs.selectedIndex = v.tabs.selectedIndex ∧ v'.shown = some page ∧ page.index = index := by
  obtain ⟨hinv, hagree, hfollows⟩ := together_of_patient h
  obtain ⟨titles, texts, hlength, hshowing⟩ := hinv.showing (e := .tapped index) hv hoffer (by simp)
  obtain ⟨current, hcurrent, -⟩ := hshowing.shown
  have hsel := (hfollows v hv).selected hidle hcurrent
  have hindex := hagree v hv current hcurrent
  obtain ⟨hafter, -, hpages⟩ := hshowing.tapped hlength hoffer
  obtain ⟨hgoes, -⟩ := hpages current hsel
  obtain ⟨next, hshown, hnext, -, hkept⟩ := hgoes ⟨hne.symm, fun hsame => hne (hsame.symm.trans hindex)⟩
  -- the animation has not ended, and the cell takes the old page for the selected one
  have hback : v.tabs.selectedIndex < (v.tapped index).tabs.itemViews.length := by
    rw [hafter.row.length]
    exact hshowing.row.selected
  obtain ⟨-, hselected, hpages'⟩ := hafter.tapped hlength hback
  have hstays := ((hpages' current hkept).2 (Or.inr hindex)).1
  refine ⟨(v.tapped index).tapped v.tabs.selectedIndex, next, ?_, hselected, hstays.trans hshown, hnext⟩
  show (s.view.map _).map _ = _
  rw [hv, Option.map_some, Option.map_some]

end

/-! ### A day in November -/

theorem november_opened : ∃ v, opened.view = some v ∧ Opened id (tabsOf 3600 1509879600 november) v := by
  have hinv := inv_of_reach waited_reached
  obtain ⟨v, hv⟩ := hinv.exists_view (by decide +kernel)
  obtain ⟨hwait, hno, ⟨ti, fetched, hanswered, hview⟩ | ⟨hun, -⟩⟩ :=
    hinv.arrives (.horoscopesFetched november) rfl hv
  · obtain rfl := Option.some.inj (hanswered.time.symm.trans opened_answered.time)
    obtain rfl := Option.some.inj (hanswered.fetched.symm.trans opened_answered.fetched)
    exact ⟨_, hview, hwait.opened hno november_ne⟩
  · exact absurd opened_answered (hun _ _)

/-- Five tabs, of which the second is selected. -/
theorem november_tapped : ∃ v, opened.view = some v ∧ v.animations = [] ∧ v.tabs.selectedIndex = 1 ∧
    v.tabs.itemViews.length = 5 := by
  obtain ⟨v, hv, hopened⟩ := november_opened
  have hlength : (tabsOf 3600 1509879600 november).length = 5 := by
    rw [← List.length_map Prod.fst, november_tabs]
    rfl
  refine ⟨v, hv, hopened.animations, ?_, ?_⟩
  · rw [hopened.selectedIndex, hlength]
    rfl
  · rw [hopened.showing.row.length, titlesOf, List.length_map, hlength]

theorem opened_patient : (system 3600 id).Reach Patient opened :=
  ⟨_, rfl, EventSystem.ReachFrom.exec
    [Event.viewDidLoad () none, Event.serverTime 1509879600, Event.horoscopesFetched november] _
    ⟨⟨rfl, trivial⟩, ⟨rfl, trivial⟩, ⟨rfl, trivial⟩, trivial⟩⟩

/-- The day is opened, and another tab is tapped. -/
def novemberTap : List (Event Unit) :=
  [.viewDidLoad () none, .serverTime 1509879600, .horoscopesFetched november, .tapped 2]

theorem november_iff :
    (∀ es', es' <+: novemberTap → AgreeAt ((system 3600 id).exec ⟨constructed, none⟩ es')) ↔
      (system 3600 id).Run (fun s e => ¬ Returns s e) ⟨constructed, none⟩ novemberTap := by
  obtain ⟨v, hv, -, -, hlength⟩ := november_tapped
  refine agree_iff_run ⟨⟨rfl, trivial⟩, ⟨rfl, trivial⟩, ⟨rfl, trivial⟩, ⟨⟨v, hv, ?_⟩, trivial⟩, trivial⟩
  change 2 < v.tabs.itemViews.length
  rw [hlength]
  decide

theorem november_agrees : ∃ v, opened.view = some v ∧ ∀ page, v.shown = some page → page.index = 1 := by
  obtain ⟨v, hv, -, hselected, -⟩ := november_tapped
  refine ⟨v, hv, fun page hpage => ?_⟩
  rw [agree_of_patient opened_patient hv hpage, hselected]

theorem november_back_disagrees : ∃ v page,
    ((system 3600 id).exec opened [.tapped 2, .tapped 1]).view = some v ∧
      v.tabs.selectedIndex = 1 ∧ v.shown = some page ∧ page.index = 2 := by
  obtain ⟨v, hv, hidle, hselected, hlength⟩ := november_tapped
  have hoffer : 2 < v.tabs.itemViews.length := by
    rw [hlength]
    decide
  have hne : 2 ≠ v.tabs.selectedIndex := by
    rw [hselected]
    decide
  obtain ⟨v', page, hv', hselected', hshown, hpage⟩ := back_disagrees opened_patient hv hidle hoffer hne
  rw [hselected] at hv' hselected'
  exact ⟨v', page, hv', hselected', hshown, hpage⟩

end PredictionView
end Horo
