/-
# The screens and their navigation controller

`managers/screensmanager`, `ScreensManagerOBJC` and
`ViewControllers/BaseNavigationController`. A screen of the menu is pushed with
a completion that makes it the only one when the push has ended; there is room
for one completion, and whatever push or pop ends first runs it. A push or a
pop changes the stack at once, and ends when the navigation controller says so
(`didShow`), any time later. Persons are known by their addresses; their signs
may change, and a screen that has been made keeps the sign it has fetched.

* `lands_iff_run`: all along a run the transitions end at the screen that was
  asked for last exactly if no step disturbs a completion.
* `above_first_details`: while no completion waits, everything above the first
  screen has been pushed without one.
* `request_shown`: the screen on top is of the class and shows the sign that
  were asked for, whether it is a new one or not, if no sign has changed under
  an open prediction.
* `initializations_exec`: the notifications are initialized once.
-/
import Mathlib.Data.List.Nodup
import Horo.Lib.Reach
import Horo.Data.Person

namespace Horo
namespace Navigation

open Lib

/-! ### The screens -/

inductive ViewControllerClass
  /-- `ViewController`, which the stack starts with. -/
  | viewController
  | welcome
  | prediction
  | notifications
  | friends
  | account
  | pushTime
  deriving DecidableEq, Repr

/-- Whose prediction is shown: that of a person or of a sign. These are the
members of `PredictionScreenModelImpl` that it compares. -/
structure PredictionModel where
  person : Option ℕ
  zodiac : Option ZodiacTypes
  one : person = none ∨ zodiac = none
  deriving DecidableEq

namespace PredictionModel

def ofPerson (person : Option ℕ) : PredictionModel := ⟨person, none, .inr rfl⟩

def ofZodiac (zodiac : ZodiacTypes) : PredictionModel := ⟨none, some zodiac, .inl rfl⟩

variable (model : PredictionModel) (zodiacs : ℕ → Option ZodiacTypes)

/-- The constructor, with the person of the components. -/
def construct (components : Option ℕ) : PredictionModel :=
  if model.person = none ∧ model.zodiac = none then ofPerson components else model

theorem cases_of : (∃ person, model = ofPerson person) ∨ ∃ zodiac, model = ofZodiac zodiac := by
  obtain ⟨person, zodiac, hone⟩ := model
  rcases zodiac with _ | zodiac
  · exact .inl ⟨person, rfl⟩
  · obtain rfl := hone.resolve_right (Option.some_ne_none zodiac)
    exact .inr ⟨zodiac, rfl⟩

/-- `zodiac()`, the sign that there is by now. -/
def sign : Option ZodiacTypes :=
  match model.zodiac with
  | some zodiac => some zodiac
  | none => model.person.bind zodiacs

/-- The comparison with what is asked for. -/
def isCurrentModelEqualWithData (data : PredictionModel) : Bool :=
  match model.person, data.person with
  | some current, some person => current = person
  | _, _ =>
    match model.sign zodiacs, data.zodiac with
    | some sign, some zodiac => sign = zodiac
    | _, _ =>
      match model.sign zodiacs, data.person with
      | some sign, some person => zodiacs person = some sign
      | _, _ => false

end PredictionModel

structure ViewController where
  /-- The address of the object. -/
  address : ℕ
  cls : ViewControllerClass
  model : PredictionModel
  hideMenuButton : Bool
  /-- The sign of the model when it was made: that of the title, for which the
  predictions were fetched. -/
  sign : Option ZodiacTypes
  deriving DecidableEq

/-- `ScreensManagerImpl`, `ScreensManagerOBJC` and the navigation controller. -/
structure State where
  /-- The first one is at the bottom. -/
  viewControllers : List ViewController
  /-- The screen in the `_completion` of the navigation controller. -/
  completion : Option ViewController
  leftViewHidden : Bool
  navigationBarHidden : Bool
  notificationsInitialized : Bool
  /-- How often the notifications have been initialized. -/
  initializations : ℕ
  /-- The person of the components. -/
  person : Option ℕ
  zodiacs : ℕ → Option ZodiacTypes
  /-- The number of screens that have been made. -/
  allocated : ℕ
  /-- The screen that was asked for last, or gone back to. -/
  asked : Option ViewController

namespace State

variable (s : State)

def topViewController : Option ViewController := s.viewControllers.getLast?

/-- A new screen, which has no model unless it is one of a prediction. -/
def instantiate (cls : ViewControllerClass) (model : PredictionModel) (hideMenuButton : Bool) :
    ViewController × State :=
  (⟨s.allocated, cls, model, hideMenuButton, model.sign s.zodiacs⟩,
    { s with allocated := s.allocated + 1 })

def closeMenu : State := { s with leftViewHidden := true }

/-- `canIgnorePushingViewController:person:zodiac:`. -/
def canIgnorePushingViewController (cls : ViewControllerClass) (data : PredictionModel) : Bool :=
  match s.topViewController with
  | none => false
  | some top =>
    if top.cls = .prediction ∧ cls = .prediction then
      top.model.isCurrentModelEqualWithData s.zodiacs data
    else top.cls = cls

/-- `allowReplaceWithViewController:`. -/
def allowReplace : Bool :=
  s.viewControllers.length = 0 ∨
    s.viewControllers.length = 1 ∧ (s.viewControllers.head?.map (·.cls)) = some .viewController

/-- The push of `ScreensManagerOBJC`, with the completion. -/
def pushViewController (viewController : ViewController) : State :=
  if s.allowReplace then { s with viewControllers := [viewController] }
  else
    { s with
      viewControllers := s.viewControllers ++ [viewController]
      completion := some viewController }

/-- The push of UIKit, which leaves the completion. -/
def pushDetail (viewController : ViewController) : State :=
  { s with viewControllers := s.viewControllers ++ [viewController] }

/-- What is asked for is on top. -/
def ask : State := { s with asked := s.topViewController }

/-- `initializeNotifications`. -/
def initializeNotifications : State :=
  if s.notificationsInitialized then s
  else { s with notificationsInitialized := true, initializations := s.initializations + 1 }

/-- A screen without a model, unless there is one of its class on top. -/
def showScreen (cls : ViewControllerClass) : State :=
  let s := s.closeMenu
  if s.canIgnorePushingViewController cls (.ofPerson none) then s.ask
  else
    let (viewController, s) := s.instantiate cls (.ofPerson none) false
    (s.pushViewController viewController).ask

def showNotificationsViewController : State := s.showScreen .notifications

def showFriendsViewController : State := s.showScreen .friends

def showAccountViewController : State := s.showScreen .account

/-- The one that never finds its screen on top. -/
def showWelcomeViewController : State :=
  let (viewController, s) := s.instantiate .welcome (.ofPerson none) false
  ({ s with navigationBarHidden := true }.pushViewController viewController).ask

def showPushTimeViewController : State :=
  let (viewController, s) := s.instantiate .pushTime (.ofPerson none) false
  (s.pushDetail viewController).ask

def showMenuViewController : State := { s with leftViewHidden := false }

/-- `showPredictionViewController:push:zodiac:`. -/
def showPrediction (data : PredictionModel) (push : Bool) : State :=
  let s := s.closeMenu
  if s.canIgnorePushingViewController .prediction data then s.ask
  else
    let (viewController, s) := s.instantiate .prediction (data.construct s.person) push
    let s := { s with navigationBarHidden := false }
    if push then (s.pushDetail viewController).ask else (s.pushViewController viewController).ask

/-- A person without a sign is not shown. -/
def withPerson (person : Option ℕ) (push : Bool) : State :=
  if person.isSome ∧ person.bind s.zodiacs = none then s else s.showPrediction (.ofPerson person) push

/-- The three of `ScreensManagerImpl`. -/
def showPredictionViewController : State :=
  let s := s.initializeNotifications
  s.withPerson s.person false

def showPredictionViewControllerOfPerson (person : Option ℕ) (push : Bool) : State :=
  s.initializeNotifications.withPerson person push

def showPredictionViewControllerOfZodiac (zodiac : ZodiacTypes) : State :=
  s.showPrediction (.ofZodiac zodiac) false

/-- `navigationController:didShowViewController:animated:`. -/
def didShow : State :=
  match s.completion with
  | none => s
  | some viewController =>
    { s with
      viewControllers := if s.viewControllers.length > 1 then [viewController] else s.viewControllers
      completion := none }

/-- The user goes back. -/
def pop : State := { s with viewControllers := s.viewControllers.dropLast }.ask

end State

/-! ### The system -/

inductive Event
  | showPrediction
  | showPredictionOfPerson (person : Option ℕ) (push : Bool)
  | showPredictionOfZodiac (zodiac : ZodiacTypes)
  | showWelcome
  | showMenu
  | showFriends
  | showAccount
  | showNotifications
  | showPushTime
  | didShow
  | pop
  /-- The menu is closed by hand. -/
  | closeMenu
  | setPerson (person : Option ℕ)
  | setZodiac (person : ℕ) (zodiac : Option ZodiacTypes)
  deriving DecidableEq, Repr

/-- `setupViewControllers`. -/
def setup (s : State) : Prop :=
  ∃ first : ViewController, first.cls = .viewController ∧ first.address < s.allocated ∧
    s.viewControllers = [first] ∧
    s.completion = none ∧ s.notificationsInitialized = false ∧ s.initializations = 0 ∧ s.asked = some first

def screens : EventSystem State Event where
  init := setup
  admits s
    | .pop => s.viewControllers.length > 1
    | _ => True
  step s
    | .showPrediction => s.showPredictionViewController
    | .showPredictionOfPerson person push => s.showPredictionViewControllerOfPerson person push
    | .showPredictionOfZodiac zodiac => s.showPredictionViewControllerOfZodiac zodiac
    | .showWelcome => s.showWelcomeViewController
    | .showMenu => s.showMenuViewController
    | .showFriends => s.showFriendsViewController
    | .showAccount => s.showAccountViewController
    | .showNotifications => s.showNotificationsViewController
    | .showPushTime => s.showPushTimeViewController
    | .didShow => s.didShow
    | .pop => s.pop
    | .closeMenu => s.closeMenu
    | .setPerson person => { s with person }
    | .setZodiac person zodiac => { s with zodiacs := fun p => if p = person then zodiac else s.zodiacs p }

instance (s : State) : ∀ e : Event, Decidable (screens.admits s e)
  | .pop => inferInstanceAs (Decidable (s.viewControllers.length > 1))
  | .showPrediction | .showPredictionOfPerson _ _ | .showPredictionOfZodiac _ | .showWelcome | .showMenu
  | .showFriends | .showAccount | .showNotifications | .showPushTime | .didShow | .closeMenu
  | .setPerson _ | .setZodiac _ _ => inferInstanceAs (Decidable True)

/-! ### What a step does to the stack -/

/-- The step pushes a screen without a completion. -/
def PushesDetail (s : State) : Event → Prop
  | .showPushTime => True
  | .showPredictionOfPerson person push => push = true ∧ ¬ (person.isSome ∧ person.bind s.zodiacs = none) ∧
      s.canIgnorePushingViewController .prediction (.ofPerson person) = false
  | _ => False

/-- A screen that is pushed without a completion. -/
def ViewController.IsDetail (viewController : ViewController) : Prop :=
  viewController.cls = .pushTime ∨
    viewController.cls = .prediction ∧ viewController.hideMenuButton = true

/-- The screen is new, and asked for. -/
structure Made (s t : State) (viewController : ViewController) : Prop where
  address : viewController.address = s.allocated
  sign : viewController.sign = viewController.model.sign s.zodiacs
  allocated : t.allocated = s.allocated + 1
  asked : t.asked = some viewController

/-- What a step does to stack and completion. -/
inductive Change (s t : State) (e : Event) : Prop
  | stays (hdetail : ¬ PushesDetail s e) (hpop : e ≠ .pop) (hstack : t.viewControllers = s.viewControllers)
      (hcompletion : t.completion = s.completion) (hallocated : t.allocated = s.allocated)
      (hasked : t.asked = s.asked ∨ t.asked = s.topViewController)
  | replaces (hdetail : ¬ PushesDetail s e) (hpop : e ≠ .pop) (viewController : ViewController)
      (hmade : Made s t viewController) (hstack : t.viewControllers = [viewController])
      (hcompletion : t.completion = s.completion)
  | pushes (hdetail : ¬ PushesDetail s e) (hpop : e ≠ .pop) (viewController : ViewController)
      (hmade : Made s t viewController) (hstack : t.viewControllers = s.viewControllers ++ [viewController])
      (hcompletion : t.completion = some viewController)
  | details (hdetail : PushesDetail s e) (viewController : ViewController) (hmade : Made s t viewController)
      (his : viewController.IsDetail) (hstack : t.viewControllers = s.viewControllers ++ [viewController])
      (hcompletion : t.completion = s.completion)
  | ends (he : e = .didShow) (ht : t = s.didShow)
  | pops (he : e = .pop) (ht : t = s.pop)

section

variable {s : State} {e : Event}

/-- What is pushed is on top. -/
theorem asked_pushViewController (s : State) (viewController : ViewController) :
    (s.pushViewController viewController).ask.asked = some viewController := by
  unfold State.pushViewController
  split
  · rfl
  · exact List.getLast?_concat

theorem asked_pushDetail (s : State) (viewController : ViewController) :
    (s.pushDetail viewController).ask.asked = some viewController := List.getLast?_concat

/-- A screen that is pushed by `ScreensManagerOBJC`. -/
theorem change_push {s₀ : State} {viewController : ViewController} (hdetail : ¬ PushesDetail s e)
    (hpop : e ≠ .pop)
    (haddress : viewController.address = s.allocated)
    (hsign : viewController.sign = viewController.model.sign s.zodiacs)
    (hstack : s₀.viewControllers = s.viewControllers) (hcompletion : s₀.completion = s.completion)
    (hallocated : s₀.allocated = s.allocated + 1) :
    Change s (s₀.pushViewController viewController).ask e := by
  have hmade : ∀ t : State, t.allocated = s₀.allocated → t.asked = some viewController →
      Made s t viewController :=
    fun t hcount hasked => ⟨haddress, hsign, hcount.trans hallocated, hasked⟩
  have hasked := asked_pushViewController s₀ viewController
  unfold State.pushViewController at hasked ⊢
  split at hasked
  · rename_i hreplace
    rw [if_pos hreplace]
    exact .replaces hdetail hpop viewController (hmade _ rfl hasked) rfl hcompletion
  · rename_i hreplace
    rw [if_neg hreplace]
    exact .pushes hdetail hpop viewController (hmade _ rfl hasked) (by simp only [State.ask, hstack]) rfl

/-- A screen that is pushed as a detail. -/
theorem change_detail {s₀ : State} {viewController : ViewController} (hdetail : PushesDetail s e)
    (his : viewController.IsDetail) (haddress : viewController.address = s.allocated)
    (hsign : viewController.sign = viewController.model.sign s.zodiacs)
    (hstack : s₀.viewControllers = s.viewControllers) (hcompletion : s₀.completion = s.completion)
    (hallocated : s₀.allocated = s.allocated + 1) : Change s (s₀.pushDetail viewController).ask e := by
  refine .details hdetail viewController
    ⟨haddress, hsign, hallocated, asked_pushDetail s₀ viewController⟩ his ?_ hcompletion
  simp only [State.ask, State.pushDetail, hstack]

theorem change_showScreen (cls : ViewControllerClass) (hdetail : ¬ PushesDetail s e) (hpop : e ≠ .pop) :
    Change s (s.showScreen cls) e := by
  unfold State.showScreen
  simp only
  split
  · exact .stays hdetail hpop rfl rfl rfl (.inr rfl)
  · exact change_push hdetail hpop rfl rfl rfl rfl rfl

/-- A prediction, from a state with the stack of another. -/
theorem change_showPrediction {s₀ : State} (hstack : s₀.viewControllers = s.viewControllers)
    (hcompletion : s₀.completion = s.completion) (hallocated : s₀.allocated = s.allocated)
    (hzodiacs : s₀.zodiacs = s.zodiacs) (data : PredictionModel) (push : Bool)
    (hpop : e ≠ .pop)
    (hdetail : PushesDetail s e ↔ push = true ∧
      s.canIgnorePushingViewController .prediction data = false) :
    Change s (s₀.showPrediction data push) e := by
  have hignore : s₀.closeMenu.canIgnorePushingViewController .prediction data =
      s.canIgnorePushingViewController .prediction data := by
    simp only [State.canIgnorePushingViewController, State.topViewController, State.closeMenu, hstack,
      hzodiacs]
  have htop : s₀.topViewController = s.topViewController := by
    simp only [State.topViewController, hstack]
  have hsign : (data.construct s₀.person).sign s₀.zodiacs = (data.construct s₀.person).sign s.zodiacs := by
    rw [hzodiacs]
  unfold State.showPrediction
  simp only [hignore]
  by_cases hcan : s.canIgnorePushingViewController .prediction data = true
  · rw [if_pos hcan]
    refine .stays (fun hd => ?_) hpop hstack hcompletion hallocated (.inr htop)
    exact absurd ((hdetail.mp hd).2.symm.trans hcan) (by decide)
  · rw [if_neg hcan]
    cases push with
    | true =>
      exact change_detail (hdetail.mpr ⟨rfl, Bool.eq_false_iff.mpr hcan⟩)
        (.inr ⟨rfl, rfl⟩) hallocated hsign hstack hcompletion
        (congrArg (· + 1) hallocated)
    | false =>
      exact change_push (fun hd => absurd (hdetail.mp hd).1 (by decide)) hpop hallocated hsign hstack
        hcompletion (congrArg (· + 1) hallocated)

/-- **What a step can do.** -/
theorem step_change (s : State) (e : Event) : Change s (screens.step s e) e := by
  have hinit : ∀ s : State, s.initializeNotifications.viewControllers = s.viewControllers ∧
      s.initializeNotifications.completion = s.completion ∧
        s.initializeNotifications.allocated = s.allocated ∧
      s.initializeNotifications.zodiacs = s.zodiacs ∧ s.initializeNotifications.asked = s.asked ∧
      s.initializeNotifications.person = s.person := by
    intro s
    unfold State.initializeNotifications
    split <;> exact ⟨rfl, rfl, rfl, rfl, rfl, rfl⟩
  obtain ⟨hstack, hcompletion, hallocated, hzodiacs, hasked, hperson⟩ := hinit s
  cases e with
  | showPrediction =>
    change Change s (s.initializeNotifications.withPerson s.initializeNotifications.person false) _
    unfold State.withPerson
    split
    · exact .stays id nofun hstack hcompletion hallocated (.inl hasked)
    · exact change_showPrediction hstack hcompletion hallocated hzodiacs _ false nofun
        (by simp [PushesDetail])
  | showPredictionOfPerson person push =>
    change Change s (s.initializeNotifications.withPerson person push) _
    unfold State.withPerson
    rw [hzodiacs]
    split
    · rename_i hdrop
      exact .stays (fun hd => hd.2.1 hdrop) nofun hstack hcompletion hallocated (.inl hasked)
    · rename_i hdrop
      exact change_showPrediction hstack hcompletion hallocated hzodiacs (.ofPerson person) push nofun
        ⟨fun hd => ⟨hd.1, hd.2.2⟩, fun hd => ⟨hd.1, hdrop, hd.2⟩⟩
  | showPredictionOfZodiac zodiac =>
    exact change_showPrediction rfl rfl rfl rfl (.ofZodiac zodiac) false nofun (by simp [PushesDetail])
  | showWelcome => exact change_push id nofun rfl rfl rfl rfl rfl
  | showMenu => exact .stays id nofun rfl rfl rfl (.inl rfl)
  | showFriends => exact change_showScreen .friends id nofun
  | showAccount => exact change_showScreen .account id nofun
  | showNotifications => exact change_showScreen .notifications id nofun
  | showPushTime => exact change_detail trivial (.inl rfl) rfl rfl rfl rfl rfl
  | didShow => exact .ends rfl rfl
  | pop => exact .pops rfl rfl
  | closeMenu => exact .stays id nofun rfl rfl rfl (.inl rfl)
  | setPerson person => exact .stays id nofun rfl rfl rfl (.inl rfl)
  | setZodiac person zodiac => exact .stays id nofun rfl rfl rfl (.inl rfl)

/-! ### Where the transitions end -/

/-- What is asked for is on top, and stays there when the transitions end. -/
def Lands (s : State) : Prop := s.topViewController = s.asked ∧ s.didShow.topViewController = s.asked

/-- While a completion waits, the step pushes a screen without one, or goes back
to a screen that is not the only one. -/
def Disturbs (s : State) (e : Event) : Prop :=
  s.completion.isSome ∧ (PushesDetail s e ∨ e = .pop ∧ 2 < s.viewControllers.length)

/-- What pushes no detail and does not go back disturbs nothing. -/
theorem not_disturbs (hdetail : ¬ PushesDetail s e) (hpop : e ≠ .pop) : ¬ Disturbs s e :=
  fun h => h.2.elim hdetail fun hgoes => hpop hgoes.1

/-- The screens are different objects. -/
structure Inv (s : State) : Prop where
  ne : s.viewControllers ≠ []
  fresh : ∀ viewController ∈ s.viewControllers, viewController.address < s.allocated
  nodup : (s.viewControllers.map (·.address)).Nodup
  completion : ∀ viewController, s.completion = some viewController → viewController.address < s.allocated

theorem setup_inv (h : setup s) : Inv s := by
  obtain ⟨first, -, hlt, hstack, hnone, -⟩ := h
  refine ⟨?_, ?_, ?_, ?_⟩
  · rw [hstack]
    exact List.cons_ne_nil first []
  · rw [hstack]
    intro viewController hmem
    obtain rfl := List.mem_singleton.mp hmem
    exact hlt
  · rw [hstack]
    exact List.nodup_singleton first.address
  · intro viewController hsome
    cases hnone.symm.trans hsome

/-- A screen that is made keeps the screens different. -/
theorem Inv.append (h : Inv s) {t : State} {viewController : ViewController}
    (hmade : Made s t viewController)
    (hstack : t.viewControllers = s.viewControllers ++ [viewController])
    (hcompletion : t.completion = s.completion ∨ t.completion = some viewController) : Inv t where
  ne := by
    rw [hstack]
    exact List.append_ne_nil_of_right_ne_nil _ (List.cons_ne_nil _ _)
  fresh := by
    intro other hmem
    rw [hmade.allocated]
    rw [hstack] at hmem
    rcases List.mem_append.mp hmem with hold | hnew
    · exact Nat.lt_succ_of_lt (h.fresh other hold)
    · obtain rfl := List.mem_singleton.mp hnew
      rw [hmade.address]
      exact Nat.lt_succ_self _
  nodup := by
    rw [hstack, List.map_append, List.map_singleton, List.nodup_append]
    refine ⟨h.nodup, List.nodup_singleton _, fun address haddress other hother => ?_⟩
    obtain ⟨old, hold, rfl⟩ := List.mem_map.mp haddress
    obtain rfl := List.mem_singleton.mp hother
    rw [hmade.address]
    exact (h.fresh old hold).ne
  completion := by
    intro other hother
    rw [hmade.allocated]
    rcases hcompletion with hsame | hnew
    · exact Nat.lt_succ_of_lt (h.completion other (hsame ▸ hother))
    · obtain rfl := Option.some.inj (hnew.symm.trans hother)
      rw [hmade.address]
      exact Nat.lt_succ_self _

theorem didShow_of_none (h : s.completion = none) : s.didShow = s := by
  unfold State.didShow
  rw [h]

theorem didShow_of_some {viewController : ViewController} (h : s.completion = some viewController) :
    s.didShow =
      { s with
        viewControllers := if s.viewControllers.length > 1 then [viewController] else s.viewControllers
        completion := none } := by
  unfold State.didShow
  rw [h]

theorem Inv.step (h : Inv s) (ha : screens.admits s e) : Inv (screens.step s e) := by
  rcases step_change s e with ⟨-, -, hstack, hcompletion, hallocated, -⟩ |
    ⟨-, -, viewController, hmade, hstack, hcompletion⟩ |
    ⟨-, -, viewController, hmade, hstack, hcompletion⟩ |
    ⟨-, viewController, hmade, -, hstack, hcompletion⟩ | ⟨-, ht⟩ | ⟨rfl, ht⟩
  · refine ⟨hstack ▸ h.ne, ?_, hstack ▸ h.nodup, ?_⟩
    · rw [hstack, hallocated]
      exact h.fresh
    · rw [hcompletion, hallocated]
      exact h.completion
  · have hlt : viewController.address < (screens.step s e).allocated := by
      rw [hmade.allocated, hmade.address]
      exact Nat.lt_succ_self _
    refine ⟨?_, ?_, ?_, fun other hother => ?_⟩
    · rw [hstack]
      exact List.cons_ne_nil _ _
    · rw [hstack]
      intro other hmem
      obtain rfl := List.mem_singleton.mp hmem
      exact hlt
    · rw [hstack]
      exact List.nodup_singleton _
    · rw [hmade.allocated]
      exact Nat.lt_succ_of_lt (h.completion other (hcompletion ▸ hother))
  · exact h.append hmade hstack (.inr hcompletion)
  · exact h.append hmade hstack (.inl hcompletion)
  · rw [ht]
    rcases hcompletion : s.completion with _ | viewController
    · rw [didShow_of_none hcompletion]
      exact h
    · by_cases hlong : s.viewControllers.length > 1
      · rw [didShow_of_some hcompletion, if_pos hlong]
        refine ⟨List.cons_ne_nil _ _, ?_, List.nodup_singleton _, fun _ hnone => nomatch hnone⟩
        intro other hmem
        obtain rfl := List.mem_singleton.mp hmem
        exact h.completion other hcompletion
      · rw [didShow_of_some hcompletion, if_neg hlong]
        exact ⟨h.ne, h.fresh, h.nodup, fun _ hnone => nomatch hnone⟩
  · rw [ht]
    have hsub : s.viewControllers.dropLast.Sublist s.viewControllers := List.dropLast_sublist _
    refine ⟨?_, fun other hmem => h.fresh other (hsub.subset hmem), h.nodup.sublist (hsub.map _),
      h.completion⟩
    change s.viewControllers.dropLast ≠ []
    intro hnil
    have hlength := congrArg List.length hnil
    rw [List.length_dropLast, List.length_nil] at hlength
    have hlong : s.viewControllers.length > 1 := ha
    omega

/-- The transitions end at the screen of the completion, if one waits and the
screen is not alone. -/
theorem lands_iff (s : State) : Lands s ↔ s.topViewController = s.asked ∧
    ∀ viewController, s.completion = some viewController → 1 < s.viewControllers.length →
      s.asked = some viewController := by
  unfold Lands
  rcases hcompletion : s.completion with _ | viewController
  · rw [didShow_of_none hcompletion]
    exact ⟨fun h => ⟨h.1, fun _ hnone => nomatch hnone⟩, fun h => ⟨h.1, h.1⟩⟩
  · rw [didShow_of_some hcompletion]
    simp only [Option.some.injEq, forall_eq']
    by_cases hlong : s.viewControllers.length > 1
    · rw [if_pos hlong]
      exact ⟨fun h => ⟨h.1, fun _ => h.2.symm⟩, fun h => ⟨h.1, (h.2 hlong).symm⟩⟩
    · rw [if_neg hlong]
      exact ⟨fun h => ⟨h.1, fun hlt => absurd hlt hlong⟩, fun h => ⟨h.1, h.1⟩⟩

/-- The screen below the top is another one. -/
theorem Inv.below_ne (h : Inv s) {viewController : ViewController}
    (htop : s.topViewController = some viewController) :
    s.viewControllers.dropLast.getLast? ≠ some viewController := by
  intro hbelow
  obtain ⟨front, hfront⟩ := List.getLast?_eq_some_iff.mp htop
  have hmem : viewController ∈ front := by
    rw [hfront, List.dropLast_concat] at hbelow
    exact List.mem_of_getLast? hbelow
  have hnodup := h.nodup
  rw [hfront, List.map_append, List.map_singleton, List.nodup_append] at hnodup
  exact hnodup.2.2 _ (List.mem_map_of_mem hmem) _ (List.mem_singleton_self _) rfl

/-- **A step lets the transitions end at what is asked for exactly if it does
not disturb a completion.** -/
theorem lands_step (h : Inv s) (hlands : Lands s) (e : Event) (ha : screens.admits s e) :
    Lands (screens.step s e) ↔ ¬ Disturbs s e := by
  have hclean := (lands_iff s).mp hlands
  rw [lands_iff]
  rcases step_change s e with ⟨hdetail, hpop, hstack, hcompletion, -, hasked⟩ |
    ⟨hdetail, hpop, viewController, hmade, hstack, hcompletion⟩ |
    ⟨hdetail, hpop, viewController, hmade, hstack, hcompletion⟩ |
    ⟨hdetail, viewController, hmade, -, hstack, hcompletion⟩ | ⟨rfl, ht⟩ | ⟨rfl, ht⟩
  · have hsame : (screens.step s e).asked = s.asked := by
      rcases hasked with hsame | htop
      · exact hsame
      · rw [htop, hclean.1]
    refine iff_of_true ?_ fun hd => hd.2.elim hdetail fun hgoes => hpop hgoes.1
    rw [State.topViewController, hstack, hcompletion, hsame]
    exact hclean
  · refine iff_of_true ⟨?_, fun _ _ hlong => ?_⟩ fun hd => hd.2.elim hdetail fun hgoes => hpop hgoes.1
    · rw [State.topViewController, hstack, hmade.asked]
      rfl
    · rw [hstack] at hlong
      exact absurd hlong (lt_irrefl 1)
  · refine iff_of_true ⟨?_, fun other hother _ => ?_⟩ fun hd => hd.2.elim hdetail fun hgoes => hpop hgoes.1
    · rw [State.topViewController, hstack, hmade.asked, List.getLast?_concat]
    · rw [hmade.asked, ← hcompletion, hother]
  · -- the completion would put its screen in the place of the new one
    have htop : (screens.step s e).topViewController = (screens.step s e).asked := by
      rw [State.topViewController, hstack, hmade.asked, List.getLast?_concat]
    rcases hwaits : s.completion with _ | other
    · refine iff_of_true ⟨htop, fun other hother => ?_⟩ fun hd => ?_
      · rw [hcompletion, hwaits] at hother
        cases hother
      · exact absurd hd.1 (by rw [hwaits]; exact Bool.false_ne_true)
    · refine iff_of_false (fun hnew => ?_) (not_not.mpr ⟨by rw [hwaits]; rfl, .inl hdetail⟩)
      have hlong : 1 < (screens.step s e).viewControllers.length := by
        rw [hstack, List.length_append, List.length_singleton]
        have := List.length_pos_iff.mpr h.ne
        omega
      have heq := hnew.2 other (hcompletion.trans hwaits) hlong
      rw [hmade.asked] at heq
      have hlt := h.completion other hwaits
      rw [← Option.some.inj heq, hmade.address] at hlt
      exact lt_irrefl _ hlt
  · refine iff_of_true ?_ fun hd => hd.2.elim id fun hgoes => nomatch hgoes.1
    rw [ht]
    refine ⟨?_, fun other hother => ?_⟩
    · have hend := hlands.2
      rcases hwaits : s.completion with _ | viewController
      · rw [didShow_of_none hwaits] at hend ⊢
        exact hend
      · rw [hend, didShow_of_some hwaits]
    · rcases hwaits : s.completion with _ | viewController
      · rw [didShow_of_none hwaits, hwaits] at hother
        cases hother
      · rw [didShow_of_some hwaits] at hother
        cases hother
  · have htop : (screens.step s .pop).topViewController = (screens.step s .pop).asked := rfl
    have hlength : (screens.step s .pop).viewControllers.length = s.viewControllers.length - 1 :=
      List.length_dropLast
    have hlong : 1 < s.viewControllers.length := ha
    rcases hwaits : s.completion with _ | other
    · refine iff_of_true ⟨htop, fun other hother => ?_⟩ fun hd => ?_
      · change s.completion = some other at hother
        rw [hwaits] at hother
        cases hother
      · exact absurd hd.1 (by rw [hwaits]; exact Bool.false_ne_true)
    · by_cases hmore : 2 < s.viewControllers.length
      · refine iff_of_false (fun hnew => ?_) (not_not.mpr ⟨by rw [hwaits]; rfl, .inr ⟨rfl, hmore⟩⟩)
        have heq := hnew.2 other hwaits (by omega)
        have hold : s.topViewController = some other := hclean.1.trans (hclean.2 other hwaits hlong)
        exact h.below_ne hold heq
      · refine iff_of_true ⟨htop, fun other hother hlt => ?_⟩ fun hd => ?_
        · omega
        · exact hd.2.elim id fun hgoes => hmore hgoes.2

theorem setup_lands (h : setup s) : Lands s := by
  obtain ⟨first, -, -, hstack, hnone, -, -, hasked⟩ := h
  rw [lands_iff, State.topViewController, hstack, hasked]
  refine ⟨rfl, fun other hother => ?_⟩
  cases hnone.symm.trans hother

/-- **All along a run the screen that was asked for last is on top, and stays
there when the transitions end, exactly if** no step of it disturbs a
completion. -/
theorem lands_iff_run (hsetup : setup s) {es : List Event} (hrun : screens.Run EventSystem.anyEvent s es) :
    (∀ es', es' <+: es → Lands (screens.exec s es')) ↔ screens.Run (fun s e => ¬ Disturbs s e) s es :=
  EventSystem.forall_prefix_iff_run (fun _ _ hi ha => hi.step ha)
    (fun _ e hi hlands ha => lands_step hi hlands e ha) (setup_inv hsetup) (setup_lands hsetup) hrun

/-! ### What lies below -/

/-- While no completion waits, everything above the first screen is a detail. -/
def OnlyDetails (s : State) : Prop :=
  s.completion = none → ∀ viewController ∈ s.viewControllers.tail, viewController.IsDetail

theorem onlyDetails_step (h : Inv s) (honly : OnlyDetails s) (e : Event) :
    OnlyDetails (screens.step s e) := by
  have happend : ∀ {viewController other : ViewController},
      other ∈ (s.viewControllers ++ [viewController]).tail →
      other ∈ s.viewControllers.tail ∨ other = viewController := by
    intro viewController other hother
    rw [List.tail_append_of_ne_nil h.ne] at hother
    exact (List.mem_append.mp hother).imp_right List.mem_singleton.mp
  intro hnone
  rcases step_change s e with ⟨-, -, hstack, hcompletion, -, -⟩ | ⟨-, -, viewController, -, hstack, -⟩ |
    ⟨-, -, viewController, -, -, hcompletion⟩ | ⟨-, viewController, -, his, hstack, hcompletion⟩ |
    ⟨-, ht⟩ | ⟨rfl, ht⟩
  · rw [hstack]
    exact honly (hcompletion.symm.trans hnone)
  · rw [hstack]
    exact fun _ hmem => nomatch hmem
  · cases hcompletion.symm.trans hnone
  · rw [hstack]
    intro other hother
    rcases happend hother with hold | rfl
    · exact honly (hcompletion.symm.trans hnone) other hold
    · exact his
  · rw [ht]
    rcases hwaits : s.completion with _ | viewController
    · rw [didShow_of_none hwaits]
      exact honly hwaits
    · rw [didShow_of_some hwaits]
      simp only
      split
      · exact fun _ hmem => nomatch hmem
      · rename_i hshort
        intro other hother
        have hlength := List.length_pos_of_mem hother
        rw [List.length_tail] at hlength
        omega
  · intro other hother
    change other ∈ s.viewControllers.dropLast.tail at hother
    exact honly hnone other (((List.dropLast_sublist _).tail).subset hother)

/-- **No screen is left behind:** while no completion waits, everything above
the first screen is the time of the push notifications, or a prediction without
the button of the menu. -/
theorem above_first_details (h : screens.Reach EventSystem.anyEvent s) (hnone : s.completion = none) :
    ∀ viewController ∈ s.viewControllers.tail,
      viewController.cls = .pushTime ∨
        viewController.cls = .prediction ∧ viewController.hideMenuButton = true := by
  have hboth : Inv s ∧ OnlyDetails s := by
    refine h.inv (P := fun t => Inv t ∧ OnlyDetails t) (fun t ht => ⟨setup_inv ht, ?_⟩)
      fun t e ht ha _ => ⟨ht.1.step ha, onlyDetails_step ht.1 ht.2 e⟩
    obtain ⟨first, -, -, hstack, -⟩ := ht
    intro _
    rw [hstack]
    exact fun _ hmem => nomatch hmem
  exact hboth.2 hnone

/-! ### What is asked for -/

/-- The class of the screen that an event asks for, and the sign of a
prediction; a person without a sign asks for nothing. -/
def requested (s : State) : Event → Option (ViewControllerClass × Option ZodiacTypes)
  | .showPrediction => ofPerson s.person
  | .showPredictionOfPerson person _ => ofPerson person
  | .showPredictionOfZodiac zodiac => some (.prediction, some zodiac)
  | .showWelcome => some (.welcome, none)
  | .showFriends => some (.friends, none)
  | .showAccount => some (.account, none)
  | .showNotifications => some (.notifications, none)
  | .showPushTime => some (.pushTime, none)
  | _ => none
where
  /-- Without a person the one of the components is shown. -/
  ofPerson (person : Option ℕ) : Option (ViewControllerClass × Option ZodiacTypes) :=
    if person.isSome ∧ person.bind s.zodiacs = none then none
    else some (.prediction, ((PredictionModel.ofPerson person).construct s.person).sign s.zodiacs)

/-- The screen is of the class, and the model of the prediction has the sign by now. -/
structure Answers (zodiacs : ℕ → Option ZodiacTypes) (cls : ViewControllerClass) (sign : Option ZodiacTypes)
    (viewController : ViewController) : Prop where
  same : viewController.cls = cls
  model : cls = .prediction → viewController.model.sign zodiacs = sign

/-- A prediction that counts as the one that is shown is one of the same sign. -/
theorem sign_of_equal {zodiacs : ℕ → Option ZodiacTypes} {model data : PredictionModel}
    (components : Option ℕ)
    (h : model.isCurrentModelEqualWithData zodiacs data = true) :
    model.sign zodiacs = (data.construct components).sign zodiacs := by
  rcases data.cases_of with ⟨_ | person, rfl⟩ | ⟨zodiac, rfl⟩
  · rcases hsign : model.sign zodiacs with _ | sign <;>
      simp [PredictionModel.isCurrentModelEqualWithData, PredictionModel.ofPerson, hsign] at h
  · have hsame :
        ((PredictionModel.ofPerson (some person)).construct components).sign zodiacs = zodiacs person := rfl
    rw [hsame]
    rcases model.cases_of with ⟨_ | current, rfl⟩ | ⟨zodiac, rfl⟩
    · exact absurd h Bool.false_ne_true
    · obtain rfl : current = person := of_decide_eq_true h
      rfl
    · exact (of_decide_eq_true h : zodiacs person = some zodiac).symm
  · have hsame : ((PredictionModel.ofZodiac zodiac).construct components).sign zodiacs = some zodiac := rfl
    rw [hsame]
    rcases hsign : model.sign zodiacs with _ | sign
    · simp [PredictionModel.isCurrentModelEqualWithData, PredictionModel.ofZodiac, hsign] at h
    · simpa [PredictionModel.isCurrentModelEqualWithData, PredictionModel.ofZodiac, hsign] using h

/-- A screen of the class is on top, or a new one comes. -/
theorem asked_showScreen (s : State) {cls : ViewControllerClass} (hne : cls ≠ .prediction)
    (sign : Option ZodiacTypes) (zodiacs : ℕ → Option ZodiacTypes) :
    ∃ viewController, (s.showScreen cls).asked = some viewController ∧
      Answers zodiacs cls sign viewController := by
  have hno : ∀ viewController : ViewController, viewController.cls = cls →
      Answers zodiacs cls sign viewController :=
    fun _ hsame => ⟨hsame, fun hcls => absurd hcls hne⟩
  unfold State.showScreen
  simp only
  split
  · rename_i hcan
    unfold State.canIgnorePushingViewController at hcan
    split at hcan
    · cases hcan
    · rename_i top htop
      rw [if_neg fun hboth => hne hboth.2, decide_eq_true_eq] at hcan
      exact ⟨top, htop, hno top hcan⟩
  · exact ⟨_, asked_pushViewController _ _, hno _ rfl⟩
/-- A prediction of the sign is on top, or a new one comes. -/
theorem asked_showPrediction (s : State) (data : PredictionModel) (push : Bool) :
    ∃ viewController, (s.showPrediction data push).asked = some viewController ∧
      Answers s.zodiacs .prediction ((data.construct s.person).sign s.zodiacs) viewController := by
  unfold State.showPrediction
  simp only
  split
  · rename_i hcan
    unfold State.canIgnorePushingViewController at hcan
    split at hcan
    · cases hcan
    · rename_i top htop
      by_cases hcls : top.cls = .prediction
      · rw [if_pos ⟨hcls, rfl⟩] at hcan
        exact ⟨top, htop, hcls, fun _ => sign_of_equal s.person hcan⟩
      · rw [if_neg fun hboth => hcls hboth.1, decide_eq_true_eq] at hcan
        exact absurd hcan hcls
  · split
    · exact ⟨_, asked_pushDetail _ _, rfl, fun _ => rfl⟩
    · exact ⟨_, asked_pushViewController _ _, rfl, fun _ => rfl⟩

theorem initializeNotifications_same (s : State) : s.initializeNotifications.person = s.person ∧
    s.initializeNotifications.zodiacs = s.zodiacs := by
  unfold State.initializeNotifications
  split <;> exact ⟨rfl, rfl⟩

/-- **What is asked for is answered.** -/
theorem asked_answers {cls : ViewControllerClass} {sign : Option ZodiacTypes}
    (hrequested : requested s e = some (cls, sign)) :
    ∃ viewController, (screens.step s e).asked = some viewController ∧
      Answers s.zodiacs cls sign viewController := by
  obtain ⟨hperson, hzodiacs⟩ := initializeNotifications_same s
  have hof : ∀ (person : Option ℕ) (push : Bool), requested.ofPerson s person = some (cls, sign) →
      ∃ viewController, (s.initializeNotifications.withPerson person push).asked = some viewController ∧
        Answers s.zodiacs cls sign viewController := by
    intro person push hof
    unfold requested.ofPerson at hof
    unfold State.withPerson
    rw [hzodiacs]
    split at hof
    · cases hof
    · rename_i hdrop
      obtain ⟨rfl, rfl⟩ := Prod.mk.inj (Option.some.inj hof)
      rw [if_neg hdrop]
      have hanswers := asked_showPrediction s.initializeNotifications (.ofPerson person) push
      rwa [hperson, hzodiacs] at hanswers
  have hother : ∀ {viewController : ViewController}, viewController.cls = cls → cls ≠ .prediction →
      Answers s.zodiacs cls sign viewController := fun hsame hne => ⟨hsame, fun hcls => absurd hcls hne⟩
  cases e with
  | showPrediction =>
    have hanswers := hof s.person false hrequested
    rwa [← hperson] at hanswers
  | showPredictionOfPerson person push => exact hof person push hrequested
  | showPredictionOfZodiac zodiac =>
    obtain ⟨rfl, rfl⟩ := Prod.mk.inj (Option.some.inj hrequested)
    exact asked_showPrediction s (.ofZodiac zodiac) false
  | showWelcome =>
    obtain ⟨rfl, rfl⟩ := Prod.mk.inj (Option.some.inj hrequested)
    exact ⟨_, asked_pushViewController _ _, hother rfl (by decide)⟩
  | showFriends =>
    obtain ⟨rfl, rfl⟩ := Prod.mk.inj (Option.some.inj hrequested)
    exact asked_showScreen s (by decide) none s.zodiacs
  | showAccount =>
    obtain ⟨rfl, rfl⟩ := Prod.mk.inj (Option.some.inj hrequested)
    exact asked_showScreen s (by decide) none s.zodiacs
  | showNotifications =>
    obtain ⟨rfl, rfl⟩ := Prod.mk.inj (Option.some.inj hrequested)
    exact asked_showScreen s (by decide) none s.zodiacs
  | showPushTime =>
    obtain ⟨rfl, rfl⟩ := Prod.mk.inj (Option.some.inj hrequested)
    exact ⟨_, asked_pushDetail _ _, hother rfl (by decide)⟩
  | showMenu | didShow | pop | closeMenu | setPerson person | setZodiac person zodiac => cases hrequested

/-- A request that disturbs nothing is answered by the screen on top, now and
when the transitions end. -/
theorem answered_step (h : Inv s) (hlands : Lands s) (ha : screens.admits s e) (hnot : ¬ Disturbs s e)
    {cls : ViewControllerClass} {sign : Option ZodiacTypes}
    (hrequested : requested s e = some (cls, sign)) :
    ∃ viewController, (screens.step s e).topViewController = some viewController ∧
      (screens.step s e).didShow.topViewController = some viewController ∧
        Answers s.zodiacs cls sign viewController := by
  obtain ⟨viewController, hasked, hanswers⟩ := asked_answers hrequested
  obtain ⟨htop, hend⟩ := (lands_step h hlands e ha).mpr hnot
  exact ⟨viewController, htop.trans hasked, hend.trans hasked, hanswers⟩

/-! ### The notifications -/

/-- The request initializes the notifications; that of a sign does not. -/
def initializes : Event → Bool
  | .showPrediction => true
  | .showPredictionOfPerson _ _ => true
  | _ => false

/-- What a screen does leaves the notifications and the persons alone. -/
structure Quiet (s t : State) : Prop where
  notificationsInitialized : t.notificationsInitialized = s.notificationsInitialized
  initializations : t.initializations = s.initializations
  person : t.person = s.person
  zodiacs : t.zodiacs = s.zodiacs

theorem quiet_push (s : State) (viewController : ViewController) :
    Quiet s (s.pushViewController viewController).ask := by
  unfold State.pushViewController
  split <;> exact ⟨rfl, rfl, rfl, rfl⟩

theorem quiet_showScreen (s : State) (cls : ViewControllerClass) : Quiet s (s.showScreen cls) := by
  unfold State.showScreen
  simp only
  split
  · exact ⟨rfl, rfl, rfl, rfl⟩
  · obtain ⟨hflag, hcount, hperson, hzodiacs⟩ :=
      quiet_push (s.closeMenu.instantiate cls (.ofPerson none) false).2
        (s.closeMenu.instantiate cls (.ofPerson none) false).1
    exact ⟨hflag, hcount, hperson, hzodiacs⟩

theorem quiet_showPrediction (s : State) (data : PredictionModel) (push : Bool) :
    Quiet s (s.showPrediction data push) := by
  unfold State.showPrediction
  simp only
  split
  · exact ⟨rfl, rfl, rfl, rfl⟩
  · split
    · exact ⟨rfl, rfl, rfl, rfl⟩
    · obtain ⟨hflag, hcount, hperson, hzodiacs⟩ := quiet_push
        { (s.closeMenu.instantiate .prediction (data.construct s.closeMenu.person) push).2 with
          navigationBarHidden := false }
        (s.closeMenu.instantiate .prediction (data.construct s.closeMenu.person) push).1
      exact ⟨hflag, hcount, hperson, hzodiacs⟩

theorem quiet_withPerson (s : State) (person : Option ℕ) (push : Bool) :
    Quiet s (s.withPerson person push) := by
  unfold State.withPerson
  split
  · exact ⟨rfl, rfl, rfl, rfl⟩
  · exact quiet_showPrediction s _ push

/-- The current person or the sign of a person changes. -/
def setsPersons : Event → Bool
  | .setPerson _ => true
  | .setZodiac _ _ => true
  | _ => false

/-- All that a step may do first is to initialize the notifications. -/
theorem quiet_step (s : State) (hset : setsPersons e = false) :
    Quiet (if initializes e then s.initializeNotifications else s) (screens.step s e) := by
  cases e with
  | showPrediction => exact quiet_withPerson s.initializeNotifications _ false
  | showPredictionOfPerson person push => exact quiet_withPerson s.initializeNotifications person push
  | showPredictionOfZodiac zodiac => exact quiet_showPrediction s _ false
  | showWelcome =>
    obtain ⟨hflag, hcount, hperson, hzodiacs⟩ := quiet_push
      { (s.instantiate .welcome (.ofPerson none) false).2 with navigationBarHidden := true }
      (s.instantiate .welcome (.ofPerson none) false).1
    exact ⟨hflag, hcount, hperson, hzodiacs⟩
  | showFriends => exact quiet_showScreen s .friends
  | showAccount => exact quiet_showScreen s .account
  | showNotifications => exact quiet_showScreen s .notifications
  | didShow =>
    show Quiet s s.didShow
    unfold State.didShow
    split <;> exact ⟨rfl, rfl, rfl, rfl⟩
  | showMenu | showPushTime | pop | closeMenu => exact ⟨rfl, rfl, rfl, rfl⟩
  | setPerson person => cases hset
  | setZodiac person zodiac => cases hset

/-- A step initializes the notifications if it may and nobody has. -/
theorem step_initializes (s : State) (e : Event) :
    (screens.step s e).notificationsInitialized = (s.notificationsInitialized || initializes e) ∧
      (screens.step s e).initializations =
        s.initializations + if s.notificationsInitialized = false ∧ initializes e = true then 1 else 0 := by
  cases hset : setsPersons e with
  | true =>
    cases e with
    | setPerson person => simp [initializes, screens]
    | setZodiac person zodiac => simp [initializes, screens]
    | _ => cases hset
  | false =>
    obtain ⟨hflag, hcount, -, -⟩ := quiet_step s hset
    rw [hflag, hcount]
    cases initializes e with
    | false => simp
    | true =>
      unfold State.initializeNotifications
      cases hinit : s.notificationsInitialized <;> simp [hinit]

/-- Only what sets them changes the persons. -/
theorem step_persons (s : State) (hset : setsPersons e = false) :
    (screens.step s e).person = s.person ∧ (screens.step s e).zodiacs = s.zodiacs := by
  obtain ⟨-, -, hperson, hzodiacs⟩ := quiet_step s hset
  rw [hperson, hzodiacs]
  cases initializes e with
  | false => exact ⟨rfl, rfl⟩
  | true => exact initializeNotifications_same s

/-- **The notifications are initialized once**, by the first request for the
prediction of a person, and never without one. -/
theorem initializations_exec : ∀ (es : List Event) (s : State), (screens.exec s es).initializations =
    s.initializations + if s.notificationsInitialized = false ∧ es.any initializes = true then 1 else 0
  | [], s => by simp
  | e :: es, s => by
    obtain ⟨hflag, hcount⟩ := step_initializes s e
    rw [EventSystem.exec_cons, initializations_exec es, hflag, hcount, List.any_cons]
    cases s.notificationsInitialized <;> cases initializes e <;> simp

/-! ### The sign that is shown -/

/-- The screens on the stack, and the one that a completion waits to put there. -/
def State.opened (s : State) : List ViewController := s.viewControllers ++ s.completion.toList

/-- The step changes the sign of a person whose prediction is open. -/
def Resigns (s : State) : Event → Prop
  | .setZodiac person zodiac => zodiac ≠ s.zodiacs person ∧
      ∃ viewController ∈ s.opened, viewController.cls = .prediction ∧
        viewController.model.person = some person
  | _ => False

/-- Every prediction that is open has the sign that its model has by now. -/
def UpToDate (s : State) : Prop :=
  ∀ viewController ∈ s.opened, viewController.cls = .prediction →
    viewController.sign = viewController.model.sign s.zodiacs

theorem setup_upToDate (h : setup s) : UpToDate s := by
  obtain ⟨first, hcls, -, hstack, hnone, -⟩ := h
  intro viewController hmem hprediction
  rw [State.opened, hstack, hnone] at hmem
  obtain rfl := List.mem_singleton.mp hmem
  cases hcls.symm.trans hprediction

/-- The signs change under no prediction. -/
theorem upToDate_setZodiac {person : ℕ} {zodiac : Option ZodiacTypes} (h : UpToDate s)
    (hnot : ¬ Resigns s (.setZodiac person zodiac)) :
    UpToDate (screens.step s (.setZodiac person zodiac)) := by
  intro viewController hmem hcls
  rw [h viewController hmem hcls]
  show viewController.model.sign s.zodiacs =
    viewController.model.sign fun p => if p = person then zodiac else s.zodiacs p
  unfold PredictionModel.sign
  rcases viewController.model.zodiac with _ | own
  · rcases hperson : viewController.model.person with _ | other
    · rfl
    · simp only [Option.bind_some]
      split
      · rename_i hother
        by_contra hne
        exact hnot ⟨fun hsame => hne (by rw [hsame, hother]), viewController, hmem, hcls,
          by rw [hperson, hother]⟩
      · rfl
  · rfl

/-- The delegate shows what has been there. -/
theorem mem_opened_didShow {viewController : ViewController} (h : viewController ∈ s.didShow.opened) :
    viewController ∈ s.opened := by
  rw [State.opened, List.mem_append, Option.mem_toList] at h ⊢
  rcases hwaits : s.completion with _ | other
  · rw [didShow_of_none hwaits, hwaits] at h
    exact h
  · rw [didShow_of_some hwaits] at h
    simp only at h
    split at h
    · rcases h with hmem | hnone
      · exact .inr (by rw [List.mem_singleton.mp hmem])
      · cases hnone
    · rcases h with hmem | hnone
      · exact .inl hmem
      · cases hnone

/-- What is open after a step has been open, or is new. -/
theorem mem_opened_step {viewController : ViewController} (h : viewController ∈ (screens.step s e).opened) :
    viewController ∈ s.opened ∨ viewController.sign = viewController.model.sign s.zodiacs := by
  rcases step_change s e with ⟨-, -, hstack, hcompletion, -, -⟩ |
    ⟨-, -, new, hmade, hstack, hcompletion⟩ | ⟨-, -, new, hmade, hstack, hcompletion⟩ |
    ⟨-, new, hmade, -, hstack, hcompletion⟩ | ⟨-, ht⟩ | ⟨-, ht⟩
  -- the stack is left
  · rw [State.opened, hstack, hcompletion] at h
    exact .inl h
  -- the new one is all of the stack
  · rw [State.opened, hstack, hcompletion, List.mem_append, List.mem_singleton] at h
    rcases h with rfl | hwaits
    · exact .inr hmade.sign
    · exact .inl (List.mem_append_right _ hwaits)
  -- it comes on top, and the others go when it is there
  · rw [State.opened, hstack, hcompletion, List.mem_append, List.mem_append, List.mem_singleton] at h
    rcases h with (hold | rfl) | hnew
    · exact .inl (List.mem_append_left _ hold)
    · exact .inr hmade.sign
    · obtain rfl := Option.some.inj (Option.mem_toList.mp hnew)
      exact .inr hmade.sign
  -- it comes on top
  · rw [State.opened, hstack, hcompletion, List.mem_append, List.mem_append, List.mem_singleton] at h
    rcases h with (hold | rfl) | hwaits
    · exact .inl (List.mem_append_left _ hold)
    · exact .inr hmade.sign
    · exact .inl (List.mem_append_right _ hwaits)
  · rw [ht] at h
    exact .inl (mem_opened_didShow h)
  -- the one on top goes
  · rw [ht] at h
    rcases List.mem_append.mp h with hbelow | hwaits
    · exact .inl (List.mem_append_left _ ((List.dropLast_sublist _).subset hbelow))
    · exact .inl (List.mem_append_right _ hwaits)

/-- **A step keeps the predictions up to date,** unless it changes a sign under one. -/
theorem upToDate_step (h : UpToDate s) (hnot : ¬ Resigns s e) : UpToDate (screens.step s e) := by
  cases hset : setsPersons e with
  | true =>
    cases e with
    | setPerson person => exact h
    | setZodiac person zodiac => exact upToDate_setZodiac h hnot
    | _ => cases hset
  | false =>
    intro viewController hmem hcls
    rw [(step_persons s hset).2]
    rcases mem_opened_step hmem with hold | hnew
    · exact h viewController hold hcls
    · exact hnew

/-- The step disturbs no completion, and changes no sign under a prediction. -/
def Steady (s : State) (e : Event) : Prop := ¬ Disturbs s e ∧ ¬ Resigns s e

theorem steady_exec (hsetup : setup s) {es : List Event} (hrun : screens.Run Steady s es) :
    Inv (screens.exec s es) ∧ Lands (screens.exec s es) ∧ UpToDate (screens.exec s es) :=
  hrun.inv (P := fun t => Inv t ∧ Lands t ∧ UpToDate t)
    ⟨setup_inv hsetup, setup_lands hsetup, setup_upToDate hsetup⟩
    fun _ e hu ha hok => ⟨hu.1.step ha, (lands_step hu.1 hu.2.1 e ha).mpr hok.1,
      upToDate_step hu.2.2 hok.2⟩

/-- What asks for a screen sets no person. -/
theorem setsPersons_of_requested {cls : ViewControllerClass} {sign : Option ZodiacTypes}
    (hrequested : requested s e = some (cls, sign)) : setsPersons e = false := by
  cases e with
  | setPerson person => cases hrequested
  | setZodiac person zodiac => cases hrequested
  | _ => rfl

/-- A request that is answered shows the sign that it asks for. -/
theorem sign_of_answered (h : UpToDate s) {cls : ViewControllerClass} {sign : Option ZodiacTypes}
    (hrequested : requested s e = some (cls, sign)) {viewController : ViewController}
    (htop : (screens.step s e).topViewController = some viewController)
    (hanswers : Answers s.zodiacs cls sign viewController) (hcls : cls = .prediction) :
    viewController.sign = sign := by
  have hset := setsPersons_of_requested hrequested
  have hnot : ¬ Resigns s e := by
    cases e with
    | setZodiac person zodiac => cases hset
    | _ => exact id
  have hmem : viewController ∈ (screens.step s e).opened :=
    List.mem_append_left _ (List.mem_of_getLast? htop)
  rw [upToDate_step h hnot viewController hmem (hanswers.same.trans hcls), (step_persons s hset).2]
  exact hanswers.model hcls

/-- The prediction of a sign is on top, now and when the transitions end. -/
def Shown (zodiac : ZodiacTypes) (s : State) : Prop :=
  ∃ viewController, s.topViewController = some viewController ∧
    s.didShow.topViewController = some viewController ∧
    viewController.cls = .prediction ∧ viewController.sign = some zodiac

theorem Shown.unique {zodiac other : ZodiacTypes} (h : Shown zodiac s) (h' : Shown other s) :
    zodiac = other := by
  obtain ⟨viewController, htop, -, -, hsign⟩ := h
  obtain ⟨viewController', htop', -, -, hsign'⟩ := h'
  obtain rfl := Option.some.inj (htop.symm.trans htop')
  exact Option.some.inj (hsign.symm.trans hsign')

/-- The sign that is asked for is shown. -/
theorem shown_step (h : Inv s) (hlands : Lands s) (hupToDate : UpToDate s) (ha : screens.admits s e)
    (hnot : ¬ Disturbs s e) {zodiac : ZodiacTypes}
    (hrequested : requested s e = some (.prediction, some zodiac)) : Shown zodiac (screens.step s e) := by
  obtain ⟨viewController, htop, hend, hanswers⟩ := answered_step h hlands ha hnot hrequested
  exact ⟨viewController, htop, hend, hanswers.same,
    sign_of_answered hupToDate hrequested htop hanswers rfl⟩

end

/-! ### A run -/

/-- The stack of the launch, with the sign of one person. -/
def launched : State where
  viewControllers := [⟨0, .viewController, .ofPerson none, false, none⟩]
  completion := none
  leftViewHidden := true
  navigationBarHidden := false
  notificationsInitialized := false
  initializations := 0
  person := some 7
  zodiacs := fun person => if person = 7 then some .leo else none
  allocated := 1
  asked := some ⟨0, .viewController, .ofPerson none, false, none⟩

theorem launched_setup : setup launched := ⟨_, rfl, by decide, rfl, rfl, rfl, rfl, rfl⟩

/-- The friends are asked for while the prediction is shown. -/
def friendsAsked : List Event := [.showPrediction, .didShow, .showMenu, .showFriends]

instance (s : State) : ∀ e : Event, Decidable (PushesDetail s e)
  | .showPushTime => inferInstanceAs (Decidable True)
  | .showPredictionOfPerson person push =>
    inferInstanceAs (Decidable (push = true ∧ ¬ (person.isSome ∧ person.bind s.zodiacs = none) ∧
      s.canIgnorePushingViewController .prediction (.ofPerson person) = false))
  | .showPrediction | .showPredictionOfZodiac _ | .showWelcome | .showMenu | .showFriends | .showAccount
  | .showNotifications | .didShow | .pop | .closeMenu | .setPerson _ | .setZodiac _ _ =>
    inferInstanceAs (Decidable False)

instance (s : State) (e : Event) : Decidable (Disturbs s e) :=
  inferInstanceAs (Decidable (_ ∧ _))

instance (s : State) : ∀ e : Event, Decidable (Resigns s e)
  | .setZodiac _ _ => inferInstanceAs (Decidable (_ ∧ ∃ _, _))
  | .showPrediction | .showPredictionOfPerson _ _ | .showPredictionOfZodiac _ | .showWelcome | .showMenu
  | .showFriends | .showAccount | .showNotifications | .showPushTime | .didShow | .pop | .closeMenu
  | .setPerson _ => inferInstanceAs (Decidable False)

instance (s : State) (e : Event) : Decidable (Steady s e) := inferInstanceAs (Decidable (_ ∧ _))

/-- The time of the notifications is pushed before the transition to the friends
ends, which takes it away. -/
theorem friends_not_landed :
    ¬ ∀ es', es' <+: friendsAsked ++ [.showPushTime] → Lands (screens.exec launched es') := by
  rw [lands_iff_run launched_setup (by decide)]
  decide

/-- The prediction of a friend is pushed over the friends. -/
def friendPushed : List Event := friendsAsked ++ [.didShow, .showPredictionOfPerson (some 7) true]

theorem friends_above :
    (screens.exec launched friendPushed).viewControllers.tail.all
      (fun viewController => viewController.cls = .pushTime ∨
        viewController.cls = .prediction ∧ viewController.hideMenuButton = true) := by
  rw [List.all_eq_true]
  intro viewController hmem
  exact decide_eq_true
    (above_first_details ⟨launched, launched_setup, EventSystem.ReachFrom.exec _ _ (by decide)⟩ rfl
      viewController hmem)

/-- The sign of the person changes while its prediction is on top: that
prediction counts as the one asked for. -/
example : (screens.exec launched
    [.showPrediction, .didShow, .setZodiac 7 (some .aries), .showPrediction]).topViewController.bind
      (·.sign) = some .leo := by decide

end Navigation
end Horo
