/-
# The sessions of an installation

The account and the screens together: `performShowingOperations` of
`AppDelegate` and what the view models of the hello and the menu screen do when
a person has been gathered. The settings outlive a launch, the screens and the
persons in memory do not.

Key definitions: `step`, `lastChosen`, `Calm`, `Kept`.
Key theorems: `remembers_exec`, `kept_step`, `opens_own_prediction`.
-/
import Horo.Account
import Horo.Screens.Navigation

namespace Horo
namespace Session

open Lib Lib.EventSystem
open Account (CoreComponents requestUserInformation)
open Navigation (screens Disturbs Resigns Shown setsPersons)

/-! ### The system -/

structure State where
  account : CoreComponents
  screens : Navigation.State
  /-- The persons that have been made for the user since the launch. -/
  persons : ℕ

/-- Where the current person is; the friends have the odd addresses. -/
def State.address (s : State) : ℕ := 2 * s.persons

def State.sign (s : State) : Option ZodiacTypes := s.account.person.bind (·.zodiac)

/-- The screens have nobody but the person of the settings. -/
def setupViewControllers (person : Option Person) : Navigation.State where
  viewControllers := [⟨0, .viewController, .ofPerson none, false, none⟩]
  completion := none
  leftViewHidden := true
  navigationBarHidden := false
  notificationsInitialized := false
  initializations := 0
  person := person.map fun _ => 0
  zodiacs _ := person.bind (·.zodiac)
  allocated := 1
  asked := some ⟨0, .viewController, .ofPerson none, false, none⟩

def State.request (e : Navigation.Event) (s : State) : State :=
  { s with screens := Navigation.screens.step s.screens e }

/-- The start of the application. -/
def launch (s : State) : State :=
  let account := Account.performShowingOperations s.account
  { account, screens := setupViewControllers account.person, persons := 0 : State }.request
    (if account.person.isSome then .showPrediction else .showWelcome)

/-- The sign of the current person changes, or that of a new one is known. -/
def State.setSign (s : State) : State := s.request (.setZodiac s.address s.sign)

/-- There is a new person. -/
def personMade (account : CoreComponents) (s : State) : State :=
  let s := { s with account, persons := s.persons + 1 }
  s.setSign.request (.setPerson (some s.address))

inductive Event
  | account (e : Account.Event)
  | screens (e : Navigation.Event)

def step (s : State) : Event → State
  | .account .launch => launch s
  | .account (.createPersonWithBirthdayDate date) =>
    (personMade (Account.step s.account (.createPersonWithBirthdayDate date)) s).request .showPrediction
  | .account (.loggedIn screen data) =>
    match (requestUserInformation data).getD none with
    | none => s
    | some _ =>
      let s := personMade (Account.step s.account (.loggedIn screen data)) s
      if screen = .account then s else s.request .showPrediction
  | .account (.birthdayDateChanged date) =>
    { s with account := Account.step s.account (.birthdayDateChanged date) }.setSign
  | .account .userLoggedOut => { s with account := Account.step s.account .userLoggedOut }
  | .screens e => s.request e

/-- What the rest of the application does to the persons: it has the friends. -/
def OfOthers : Navigation.Event → Prop
  | .setPerson _ => False
  | .setZodiac person _ => person % 2 = 1
  | _ => True

instance : ∀ e, Decidable (OfOthers e)
  | .setPerson _ => inferInstanceAs (Decidable False)
  | .setZodiac person _ => inferInstanceAs (Decidable (person % 2 = 1))
  | .showPrediction | .showPredictionOfPerson _ _ | .showPredictionOfZodiac _ | .showWelcome | .showMenu
  | .showFriends | .showAccount | .showNotifications | .showPushTime | .didShow | .pop | .closeMenu =>
    inferInstanceAs (Decidable True)

def admits (s : State) : Event → Prop
  | .account e => Account.installation.admits s.account e
  | .screens e => s.account.app.settings = true ∧ screens.admits s.screens e ∧ OfOthers e

instance (s : State) : ∀ e, Decidable (admits s e)
  | .account e => inferInstanceAs (Decidable (Account.installation.admits s.account e))
  | .screens e => inferInstanceAs (Decidable (_ ∧ screens.admits s.screens e ∧ OfOthers e))

/-- Nothing is stored yet. -/
def installed : State := ⟨Account.installed, setupViewControllers none, 0⟩

def installation : EventSystem State Event where
  init s := s = installed
  admits := admits
  step := step

/-! ### The sign of the user -/

/-- The sign that an event chooses. -/
def chosen : Event → Option ZodiacTypes
  | .account (.createPersonWithBirthdayDate date) => some (ZodiacTypes.zodiacTypeByDate date)
  | .account (.loggedIn _ data) => ((requestUserInformation data).getD none).bind (·.zodiac)
  | .account (.birthdayDateChanged date) => some (ZodiacTypes.zodiacTypeByDate date)
  | _ => none

/-- The sign that was chosen last. -/
def lastChosen (es : List Event) : Option ZodiacTypes := es.foldl (fun z e => (chosen e).or z) none

/-- Where the person is whose sign an operation on the account chooses: the
current one, or a new one. -/
def State.chooser (s : State) : Account.Event → ℕ
  | .birthdayDateChanged _ => s.address
  | _ => 2 * (s.persons + 1)

/-- No completion of a push is disturbed, and no sign changes under the
prediction of its person. -/
def Calm (s : State) : Event → Prop
  | .account e => chosen (.account e) ≠ none →
      ¬ Resigns s.screens (.setZodiac (s.chooser e) (chosen (.account e)))
  | .screens e => Navigation.Steady s.screens e

instance (s : State) : ∀ e, Decidable (Calm s e)
  | .account _ => inferInstanceAs (Decidable (_ → ¬ _))
  | .screens e => inferInstanceAs (Decidable (Navigation.Steady s.screens e))

/-- The user has the sign, in memory and in the settings. -/
structure Remembers (z : Option ZodiacTypes) (account : CoreComponents) : Prop where
  good : Account.Good account
  sign : account.person.bind (·.zodiac) = z
  stored : ∃ q, Settings.currentPerson (Horo.launch account.app) = some q ∧ q.bind (·.zodiac) = z

section

variable {z : Option ZodiacTypes} {account : CoreComponents}

theorem remembers_setPerson (hgood : Account.Good account) (hsettings : account.app.settings = true)
    {p : Person} (hp : p.Plain) : Remembers p.zodiac (Account.setPerson p account) := by
  obtain ⟨hgood', hsync⟩ := Account.inSync_setPerson hgood hsettings hp
  exact ⟨hgood', rfl, some p, hsync, rfl⟩

theorem remembers_launch (h : Remembers z account) :
    Remembers z (Account.performShowingOperations account) := by
  obtain ⟨hgood, hsync⟩ := Account.inSync_launch h.good
  obtain ⟨q, hread, hq⟩ := h.stored
  have hperson : (Account.performShowingOperations account).person = q := by
    simp [Account.performShowingOperations, hread]
  have hsign : (Account.performShowingOperations account).person.bind (·.zodiac) = z := by
    rw [hperson, hq]
  exact ⟨hgood, hsign, _, hsync, hsign⟩

/-- **An operation leaves the user with the sign that it chooses,** or with the
one there was. -/
theorem remembers_step (h : Remembers z account) {e : Account.Event}
    (ha : Account.installation.admits account e) :
    Remembers ((chosen (.account e)).or z) (Account.step account e) := by
  have hgood := Account.good_step h.good ha
  cases e with
  | launch => exact remembers_launch h
  | createPersonWithBirthdayDate date =>
    obtain ⟨hsettings, hknown⟩ := ha
    have hempty : Json.cstr "" = "" := by decide
    exact remembers_setPerson
      (p := ⟨some (ZodiacTypes.zodiacTypeByDate date), "", "", "", .male, .unknown, .user, date, false⟩)
      h.good hsettings ⟨hempty, hempty, hempty, rfl, hknown⟩
  | loggedIn screen data =>
    obtain ⟨hsettings, hdata⟩ := ha
    obtain ⟨person, hperson⟩ := Option.isSome_iff_exists.mp hdata
    have hstep : Account.step account (.loggedIn screen data) = screen.login person account := by
      simp [Account.step, hperson]
    rw [hstep, Account.login_eq, chosen, hperson, Option.getD_some]
    cases person with
    | none => exact h
    | some p =>
      have hplain := Account.plain_requestUserInformation hperson
      have hzodiac : p.zodiac.or z = p.zodiac := by rw [hplain.zodiac, Option.some_or]
      rw [Option.bind_some, hzodiac]
      exact remembers_setPerson h.good hsettings hplain
  | birthdayDateChanged date =>
    obtain ⟨hsettings, hsome, hknown⟩ := ha
    obtain ⟨p, hp⟩ := Option.isSome_iff_exists.mp hsome
    have hstep : Account.step account (.birthdayDateChanged date) =
        Account.setPerson (p.setBirthdayDate date) account := by
      simp [Account.step, Account.AccountScreenModel.birthdayDateChanged, hp]
    rw [hstep]
    exact remembers_setPerson h.good hsettings
      (Account.plain_setBirthdayDate (h.good.person p hp) hknown)
  | userLoggedOut =>
    obtain ⟨p, hp⟩ := Option.isSome_iff_exists.mp ha.2
    have hsign := h.sign
    rw [hp, Option.bind_some] at hsign
    refine ⟨hgood, ?_, h.stored⟩
    simp only [Account.step, Account.AccountScreenModel.userLoggedOut, hp, Option.map_some]
    exact hsign

end

/-- Along a run the user has the sign that was chosen last. -/
theorem remembers_exec (es : List Event) : ∀ {z : Option ZodiacTypes} {s : State},
    Remembers z s.account → installation.Run anyEvent s es →
    Remembers (es.foldl (fun z e => (chosen e).or z) z) (installation.exec s es).account := by
  induction es with
  | nil => exact fun h _ => h
  | cons e es ih =>
    intro z s h hrun
    refine ih (s := step s e) ?_ hrun.2
    cases e with
    | screens e => exact h
    | account e =>
      have hstep := remembers_step h (e := e) hrun.1.1
      cases e with
      | loggedIn screen data =>
        obtain ⟨person, hperson⟩ := Option.isSome_iff_exists.mp hrun.1.1.2
        cases person with
        | none =>
          simp only [step, chosen, hperson, Option.getD_some, Option.bind_none, Option.none_or]
          exact h
        | some p =>
          simp only [step, hperson, Option.getD_some]
          split
          · exact hstep
          · exact hstep
      | _ => exact hstep

/-- The screens know the user, whose sign it is, show it, and end at what was
asked for. -/
structure Kept (z : Option ZodiacTypes) (s : State) : Prop where
  user : Remembers z s.account
  person : s.screens.person = s.account.person.map fun _ => s.address
  zodiac : s.account.person.isSome = true → s.screens.zodiacs s.address = z
  inv : Navigation.Inv s.screens
  lands : Navigation.Lands s.screens
  upToDate : Navigation.UpToDate s.screens

theorem setup_setupViewControllers (person : Option Person) :
    Navigation.setup (setupViewControllers person) :=
  ⟨_, rfl, Nat.zero_lt_one, rfl, rfl, rfl, rfl, rfl⟩

/-- Who is remembered is there after the start. -/
theorem kept_setup {z : Option ZodiacTypes} {account : CoreComponents} (h : Remembers z account) :
    Kept z ⟨account, setupViewControllers account.person, 0⟩ where
  user := h
  person := rfl
  zodiac _ := h.sign
  inv := Navigation.setup_inv (setup_setupViewControllers _)
  lands := Navigation.setup_lands (setup_setupViewControllers _)
  upToDate := Navigation.setup_upToDate (setup_setupViewControllers _)

theorem kept_installed : Kept none installed :=
  kept_setup ⟨(Account.good_initial rfl).1, rfl, none, Account.currentPerson_empty rfl, rfl⟩

section

variable {z : Option ZodiacTypes} {s : State}

/-- A request of the screens keeps the user. -/
theorem Kept.request (h : Kept z s) {e : Navigation.Event} (hset : setsPersons e = false)
    (ha : screens.admits s.screens e) (hnot : ¬ Disturbs s.screens e) : Kept z (s.request e) := by
  have hresigns : ¬ Resigns s.screens e := by
    cases e with
    | setZodiac person zodiac => cases hset
    | _ => exact id
  obtain ⟨hperson, hzodiacs⟩ := Navigation.step_persons s.screens hset
  refine ⟨h.user, hperson.trans h.person, fun hsome => ?_, h.inv.step ha,
    (Navigation.lands_step h.inv h.lands e ha).mpr hnot, Navigation.upToDate_step h.upToDate hresigns⟩
  show (screens.step s.screens e).zodiacs s.address = z
  rw [hzodiacs]
  exact h.zodiac hsome

/-- The prediction that is asked for is that of the user. -/
theorem Kept.shown {type : ZodiacTypes} (h : Kept (some type) s) :
    Shown type (s.request .showPrediction).screens := by
  obtain ⟨p, hp, -⟩ := Option.bind_eq_some_iff.mp h.user.sign
  have hperson : s.screens.person = some s.address := by
    rw [h.person, hp, Option.map_some]
  have haddress : s.screens.zodiacs s.address = some type := h.zodiac (by rw [hp]; rfl)
  have hrequested : Navigation.requested s.screens .showPrediction = some (.prediction, some type) := by
    show Navigation.requested.ofPerson s.screens s.screens.person = _
    rw [hperson, Navigation.requested.ofPerson, Option.bind_some, haddress, if_neg (by simp)]
    show some (Navigation.ViewControllerClass.prediction, s.screens.zodiacs s.address) = _
    rw [haddress]
  exact Navigation.shown_step (e := .showPrediction) h.inv h.lands h.upToDate trivial
    (Navigation.not_disturbs id (by decide)) hrequested

/-- What sets a person or a sign leaves the stack. -/
theorem inv_lands_set {n : Navigation.State} (hinv : Navigation.Inv n) (hlands : Navigation.Lands n)
    {e : Navigation.Event} (hset : setsPersons e = true) :
    Navigation.Inv (screens.step n e) ∧ Navigation.Lands (screens.step n e) := by
  have hkept : screens.admits n e ∧ ¬ Disturbs n e := by
    cases e with
    | setPerson person => exact ⟨trivial, Navigation.not_disturbs id (by rintro ⟨⟩)⟩
    | setZodiac person zodiac => exact ⟨trivial, Navigation.not_disturbs id (by rintro ⟨⟩)⟩
    | _ => cases hset
  exact ⟨hinv.step hkept.1, (Navigation.lands_step hinv hlands e hkept.1).mpr hkept.2⟩

/-- The sign of the current person is made known. -/
theorem kept_setSign (huser : Remembers z s.account)
    (hperson : s.screens.person = s.account.person.map fun _ => s.address)
    (hinv : Navigation.Inv s.screens) (hlands : Navigation.Lands s.screens)
    (hupToDate : Navigation.UpToDate s.screens)
    (hnot : ¬ Resigns s.screens (.setZodiac s.address z)) : Kept z s.setSign := by
  obtain ⟨hinv', hlands'⟩ := inv_lands_set hinv hlands (e := .setZodiac s.address s.sign) rfl
  rw [← huser.sign] at hnot
  exact ⟨huser, hperson, fun _ => (if_pos rfl).trans huser.sign, hinv', hlands',
    Navigation.upToDate_step hupToDate hnot⟩

/-- A new person is made known. -/
theorem kept_personMade {account : CoreComponents} (huser : Remembers z account)
    (hsome : account.person.isSome = true) (hinv : Navigation.Inv s.screens)
    (hlands : Navigation.Lands s.screens) (hupToDate : Navigation.UpToDate s.screens)
    (hnot : ¬ Resigns s.screens (.setZodiac (2 * (s.persons + 1)) z)) : Kept z (personMade account s) := by
  obtain ⟨p, hp⟩ := Option.isSome_iff_exists.mp hsome
  obtain ⟨hinv₁, hlands₁⟩ := inv_lands_set hinv hlands
    (e := .setZodiac (2 * (s.persons + 1)) (account.person.bind (·.zodiac))) rfl
  obtain ⟨hinv₂, hlands₂⟩ := inv_lands_set hinv₁ hlands₁ (e := .setPerson (some (2 * (s.persons + 1)))) rfl
  rw [← huser.sign] at hnot
  refine ⟨huser, ?_, fun _ => (if_pos rfl).trans huser.sign, hinv₂, hlands₂,
    Navigation.upToDate_step hupToDate hnot⟩
  show some _ = account.person.map fun _ => _
  rw [hp]
  rfl

/-- An answer of Facebook keeps the user. -/
theorem Kept.loggedIn (h : Kept z s) {screen : Account.Screen} {data : Json.Value}
    (ha : admits s (.account (.loggedIn screen data))) (hok : Calm s (.account (.loggedIn screen data))) :
    Kept ((chosen (.account (.loggedIn screen data))).or z) (step s (.account (.loggedIn screen data))) := by
  have huser := remembers_step h.user ha
  obtain ⟨-, hdata⟩ := ha
  obtain ⟨person, hperson⟩ := Option.isSome_iff_exists.mp hdata
  have hstep : Account.step s.account (.loggedIn screen data) = screen.login person s.account := by
    simp [Account.step, hperson]
  cases person with
  | none =>
    simp only [step, chosen, hperson, Option.getD_some, Option.bind_none, Option.none_or]
    exact h
  | some p =>
    have hchosen : chosen (.account (.loggedIn screen data)) = p.zodiac := by
      rw [chosen, hperson]
      rfl
    have hzodiac : p.zodiac ≠ none := by
      rw [(Account.plain_requestUserInformation hperson).zodiac]
      exact Option.some_ne_none _
    rw [hchosen, Option.or_of_isSome (Option.isSome_iff_ne_none.mpr hzodiac)] at huser ⊢
    have hnot := hok (hchosen ▸ hzodiac)
    rw [hchosen] at hnot
    have hmade := kept_personMade huser (by rw [hstep, Account.login_eq]; rfl) h.inv h.lands
      h.upToDate hnot
    simp only [step, hperson, Option.getD_some]
    split
    · exact hmade
    · exact hmade.request rfl trivial (Navigation.not_disturbs id (by decide))

/-- What happens on the screens keeps the user. -/
theorem Kept.screens (h : Kept z s) {e : Navigation.Event} (ha : admits s (.screens e))
    (hok : Calm s (.screens e)) : Kept z (step s (.screens e)) := by
  obtain ⟨-, hadmits, hothers⟩ := ha
  cases hset : setsPersons e with
  | false => exact h.request hset hadmits hok.1
  | true =>
    obtain ⟨hinv, hlands⟩ := inv_lands_set h.inv h.lands hset
    cases e with
    | setPerson person => exact absurd hothers id
    | setZodiac person zodiac =>
      refine ⟨h.user, h.person, fun hsome => ?_, hinv, hlands,
        Navigation.upToDate_step h.upToDate hok.2⟩
      have hodd : person % 2 = 1 := hothers
      have hne : s.address ≠ person := by
        unfold State.address
        omega
      exact (if_neg hne).trans (h.zodiac hsome)
    | _ => cases hset

/-- **A step keeps the user,** with the sign that the step chooses. -/
theorem kept_step (h : Kept z s) {e : Event} (ha : admits s e) (hok : Calm s e) :
    Kept ((chosen e).or z) (step s e) := by
  cases e with
  | account e =>
    have huser := remembers_step h.user ha
    cases e with
    | launch =>
      have hsetup := kept_setup huser
      by_cases hsome : (Account.performShowingOperations s.account).person.isSome = true
      · simp only [step, launch, hsome, if_true]
        exact hsetup.request rfl trivial (Navigation.not_disturbs id (by decide))
      · simp only [step, launch, hsome]
        exact hsetup.request rfl trivial (Navigation.not_disturbs id (by decide))
    | createPersonWithBirthdayDate date =>
      have hnot := hok (Option.some_ne_none _)
      exact (kept_personMade huser rfl h.inv h.lands h.upToDate hnot).request rfl trivial
        (Navigation.not_disturbs id (by decide))
    | loggedIn screen data => exact h.loggedIn ha hok
    | birthdayDateChanged date =>
      obtain ⟨p, hp⟩ := Option.isSome_iff_exists.mp ha.2.1
      apply kept_setSign huser
      · show s.screens.person = (Account.step s.account (.birthdayDateChanged date)).person.map _
        rw [h.person, hp]
        simp [Account.step, Account.AccountScreenModel.birthdayDateChanged, hp, Account.setPerson,
          State.address]
      · exact h.inv
      · exact h.lands
      · exact h.upToDate
      · exact hok (Option.some_ne_none _)
    | userLoggedOut =>
      obtain ⟨p, hp⟩ := Option.isSome_iff_exists.mp ha.2
      refine ⟨huser, ?_, fun _ => h.zodiac ha.2, h.inv, h.lands, h.upToDate⟩
      show s.screens.person = (s.account.person.map Person.logout).map _
      rw [h.person, hp]
      rfl
  | screens e => exact h.screens ha hok

/-- Along a run the user has the sign that was chosen last. -/
theorem kept_exec (es : List Event) : ∀ {z : Option ZodiacTypes} {s : State}, Kept z s →
    installation.Run Calm s es →
    Kept (es.foldl (fun z e => (chosen e).or z) z) (installation.exec s es) := by
  induction es with
  | nil => exact fun h _ => h
  | cons e es ih => exact fun h hrun => ih (kept_step h hrun.1.1 hrun.1.2) hrun.2

end

/-! ### What the application opens with -/

/-- The welcome is on top, now and when the transitions end. -/
def Welcomed (s : Navigation.State) : Prop :=
  ∃ viewController, s.topViewController = some viewController ∧
    s.didShow.topViewController = some viewController ∧ viewController.cls = .welcome

/-- **The application opens with the sign that was chosen last.** After any
history of launches, operations on the account and requests a launch shows the
prediction of the last sign that was chosen, by a birthday or a login, and the
welcome if none has been; a logout changes nothing of it. After a calm history
a request for the prediction shows the sign in the launch there is, too. -/
theorem opens_own_prediction {es : List Event} (hrun : installation.Run anyEvent installed es) :
    (∀ type, lastChosen es = some type →
      Shown type (launch (installation.exec installed es)).screens ∧
        (installation.Run Calm installed es →
          Shown type ((installation.exec installed es).request .showPrediction).screens)) ∧
      (lastChosen es = none → Welcomed (launch (installation.exec installed es)).screens) := by
  have huser := remembers_launch (remembers_exec es kept_installed.user hrun)
  have hsetup := kept_setup huser
  constructor
  · intro type htype
    change Remembers (lastChosen es) _ at huser
    change Kept (lastChosen es) _ at hsetup
    rw [htype] at huser hsetup
    obtain ⟨p, hp, -⟩ := Option.bind_eq_some_iff.mp huser.sign
    constructor
    · simp only [launch, hp, Option.isSome_some, if_true]
      rw [hp] at hsetup
      exact hsetup.shown
    · intro hcalm
      have hkept : Kept (lastChosen es) (installation.exec installed es) :=
        kept_exec es kept_installed hcalm
      rw [htype] at hkept
      exact hkept.shown
  · intro hnone
    have hperson : (Account.performShowingOperations (installation.exec installed es).account).person =
        none := by
      cases hp : (Account.performShowingOperations (installation.exec installed es).account).person with
      | none => rfl
      | some p =>
        have hsign := huser.sign
        change _ = lastChosen es at hsign
        rw [hp, Option.bind_some, (huser.good.person p hp).zodiac, hnone] at hsign
        cases hsign
    simp only [launch, hperson, Option.isSome_none, Bool.false_eq_true, if_false]
    rw [hperson] at hsetup
    obtain ⟨viewController, htop, hend, hanswers⟩ := Navigation.answered_step (e := .showWelcome)
      hsetup.inv hsetup.lands trivial (Navigation.not_disturbs id (by decide)) rfl
    exact ⟨viewController, htop, hend, hanswers.same⟩

instance (s : State) (e : Event) : Decidable (installation.admits s e) :=
  inferInstanceAs (Decidable (admits s e))

/-- Ann starts with a birthday, logs in over Facebook in the account, and logs out. -/
def annLoggedOut : List Event :=
  [.account .launch, .account (.createPersonWithBirthdayDate ⟨5, 12, 2017⟩), .screens .didShow,
   .screens .showMenu, .screens .showAccount, .screens .didShow,
   .account (.loggedIn .account Account.ann), .account .userLoggedOut]

/-- The prediction has the sign of the login, in this launch and the next. -/
theorem annLoggedOut_shown : Shown .aries (launch (installation.exec installed annLoggedOut)).screens ∧
    Shown .aries ((installation.exec installed annLoggedOut).request .showPrediction).screens := by
  have hreach : installation.Run EventSystem.anyEvent installed annLoggedOut := by decide +kernel
  obtain ⟨hlaunch, hrequest⟩ := (opens_own_prediction hreach).1 .aries (by decide +kernel)
  exact ⟨hlaunch, hrequest (by decide +kernel)⟩

end Session
end Horo
