/-
# The current user

`src/managers/loginmanager` and the models of the hello, the menu and the
account screen: five operations change `components_->person_` or replace it,
the settings keep its copy for the next launch.

* `in_sync_iff`: the settings would load the current user in every state of a
  run exactly when no logout finds something of the user to clear, since a
  logout clears it in memory alone.
-/
import Horo.Settings

namespace Horo
namespace Account

open Json Lib Lib.EventSystem

/-! ### `FacebookLoginManager` -/

/-- The loop of `toVector`: what `getline` has read of the current part, and
what it has still to read. -/
def toVectorFrom (delimeter : Char) (tmp : List Char) : List Char → List (List Char)
  | [] => if tmp = [] then [] else [tmp]
  | c :: cs =>
    if c = delimeter then tmp :: toVectorFrom delimeter [] cs
    else toVectorFrom delimeter (tmp ++ [c]) cs

def toVector (string : List Char) (delimeter : Char) : List (List Char) :=
  toVectorFrom delimeter [] string

/-- `genders[genderString]`. -/
def genderOf (genderString : String) : Gender :=
  if genderString = "male" then .male else if genderString = "female" then .female else .unknown

/-- The person for what Facebook answers, or a null pointer; the outer `none`
where reading the answer throws. -/
def requestUserInformation (data : Value) : Option (Option Person) := do
  let birthday ← (← data.get "birthday").asString
  let name ← (← data.get "name").asString
  let genderString ← (← data.get "gender").asString
  let id ← (← data.get "id").asString
  let imageUrl := "https://graph.facebook.com/" ++ id ++ "/picture?type=normal"
  match toVector birthday.toList '/' with
  | [dayPart, monthPart, yearPart] =>
    if name = "" then return none
    let day ← stoi dayPart
    let month ← stoi monthPart
    let year ← stoi yearPart
    let type := ZodiacTypes.zodiacTypeByDate ⟨day, month, year⟩
    if type = .unknown then return none
    return some { zodiac := some type, name, imageUrl, personUrl := "",
                  gender := genderOf genderString, status := .completed, type := .user,
                  birthdayDate := ⟨day, month, year⟩, withFacebook := true }
  | _ => return none

/-! ### The models of the screens -/

/-- `CoreComponents`, and the process it belongs to. -/
structure CoreComponents where
  app : App
  person : Option Person

/-- What the three models do with a person they have got. -/
def setPerson (person : Person) (s : CoreComponents) : CoreComponents :=
  { app := Settings.setCurrentPerson person s.app, person := some person }

/-- The callback of `requestUserInformation`. -/
def personGathered (handlePerson : Person → CoreComponents → CoreComponents)
    (person : Option Person) (s : CoreComponents) : CoreComponents :=
  match person with
  | some person => handlePerson person s
  | none => s

namespace HelloScreenModel

def handlePerson : Person → CoreComponents → CoreComponents := setPerson

def loginOnFacebook (person : Option Person) : CoreComponents → CoreComponents :=
  personGathered handlePerson person

def createPersonWithBirthdayDate (date : DateWrapper) : CoreComponents → CoreComponents :=
  let type := ZodiacTypes.zodiacTypeByDate date
  handlePerson { zodiac := some type, name := "", imageUrl := "", personUrl := "", gender := .male,
                 status := .unknown, type := .user, birthdayDate := date, withFacebook := false }

end HelloScreenModel

/-- The menu has no `handlePerson`. -/
def MenuScreenModel.loginOnFacebook (person : Option Person) : CoreComponents → CoreComponents :=
  personGathered setPerson person

namespace AccountScreenModel

def handlePerson : Person → CoreComponents → CoreComponents := setPerson

def loggedInOnFacebook (person : Option Person) : CoreComponents → CoreComponents :=
  personGathered handlePerson person

/-- The settings are not told. -/
def userLoggedOut (s : CoreComponents) : CoreComponents :=
  { s with person := s.person.map Person.logout }

def birthdayDateChanged (date : DateWrapper) (s : CoreComponents) : CoreComponents :=
  match s.person with
  | some person => setPerson (person.setBirthdayDate date) s
  | none => s

end AccountScreenModel

/-- `performShowingOperations`, after the start-up. -/
def performShowingOperations (s : CoreComponents) : CoreComponents :=
  let app := Horo.launch s.app
  { app, person := (Settings.currentPerson app).getD none }

/-! ### Runs -/

/-- The screens with a login. -/
inductive Screen
  | hello | menu | account
  deriving DecidableEq, Repr

def Screen.login : Screen → Option Person → CoreComponents → CoreComponents
  | .hello => HelloScreenModel.loginOnFacebook
  | .menu => MenuScreenModel.loginOnFacebook
  | .account => AccountScreenModel.loggedInOnFacebook

inductive Event
  | launch
  | createPersonWithBirthdayDate (date : DateWrapper)
  /-- Facebook answers to a login of a screen. -/
  | loggedIn (screen : Screen) (data : Value)
  | birthdayDateChanged (date : DateWrapper)
  | userLoggedOut
  deriving Repr

def step (s : CoreComponents) : Event → CoreComponents
  | .launch => performShowingOperations s
  | .createPersonWithBirthdayDate date => HelloScreenModel.createPersonWithBirthdayDate date s
  | .loggedIn screen data => screen.login ((requestUserInformation data).getD none) s
  | .birthdayDateChanged date => AccountScreenModel.birthdayDateChanged date s
  | .userLoggedOut => AccountScreenModel.userLoggedOut s

/-- The sign of a date is known. -/
def Known (date : DateWrapper) : Prop := ZodiacTypes.zodiacTypeByDate date ≠ .unknown

instance (date : DateWrapper) : Decidable (Known date) := inferInstanceAs (Decidable (_ ≠ _))

/-- Screens are there once the application has been launched, and those of the
account once there is a person; an answer that throws ends the process. -/
def admits (s : CoreComponents) : Event → Prop
  | .launch => True
  | .createPersonWithBirthdayDate date => s.app.settings = true ∧ Known date
  | .loggedIn _ data => s.app.settings = true ∧ (requestUserInformation data).isSome = true
  | .birthdayDateChanged date => s.app.settings = true ∧ s.person.isSome = true ∧ Known date
  | .userLoggedOut => s.app.settings = true ∧ s.person.isSome = true

/-- The life of an installation. -/
def installation : EventSystem CoreComponents Event where
  init s := s = ⟨⟨fun _ => none, false, false⟩, none⟩
  admits := admits
  step := step

instance (s : CoreComponents) (e : Event) : Decidable (installation.admits s e) := by
  cases e <;> simp only [installation, admits] <;> infer_instance

/-! ### What is claimed -/

/-- The settings would load the current user at the next launch. -/
def InSync (s : CoreComponents) : Prop :=
  Settings.currentPerson (Horo.launch s.app) = some s.person

/-- They would at any moment of a run. -/
def AlwaysInSync (s : CoreComponents) (es : List Event) : Prop :=
  ∀ es', es' <+: es → InSync (installation.exec s es')

/-- A logout finds nothing to clear. -/
def ClearsNothing (s : CoreComponents) : Event → Prop
  | .userLoggedOut => ∀ person ∈ s.person, person.logout = person
  | _ => True

instance (s : CoreComponents) (e : Event) : Decidable (ClearsNothing s e) := by
  cases e <;> simp only [ClearsNothing] <;> infer_instance

/-! ### What the settings read back -/

/-- The members of an encoded person are written and read back. -/
theorem members_encode {p : Person} (h : p.Plain) : ∃ ms : Members, p.encode = .object ms ∧
    ms ≠ [] ∧ (∀ m ∈ ms, m.2.Plain ∧ cstr m.1 = m.1) ∧ ms.Pairwise Before := by
  refine ⟨_, Person.encode_eq p, List.cons_ne_nil _ _, ?_, ?_⟩
  · simp only [List.mem_cons, List.not_mem_nil, or_false, forall_eq_or_imp, forall_eq]
    simp [Value.Plain, h.name, h.imageUrl, h.personUrl, Person.cstr_birthdayDate,
      Person.cstr_uniqueIdentifier h.personUrl, Value.inIntRange_toInt]
    decide
  · simp [Before, strcmpLess]

/-- **The person set is the person read.** -/
theorem currentPerson_setCurrentPerson {a : App} (ha : a.privateInstance = true) {p : Person}
    (h : p.Plain) : Settings.currentPerson (Settings.setCurrentPerson p a) = some (some p) := by
  obtain ⟨ms, hencode, hne, hms, hsort⟩ := members_encode h
  have hread : Settings.dictionaryWithKey "currentPerson" (Settings.setCurrentPerson p a) =
      p.encode := by
    rw [Settings.setCurrentPerson, Settings.saveObject, hencode,
      Settings.dictionaryWithKey_saveDictionary ha hne hms hsort]
  unfold Settings.currentPerson
  rw [hread, Person.decode_encode h]
  simp [h.known]

/-- A launch reads the person set before. -/
theorem currentPerson_launch {a : App} (ha : a.privateInstance = true) {p : Person}
    (h : p.Plain) :
    Settings.currentPerson (Horo.launch (Settings.setCurrentPerson p a)) = some (some p) := by
  have hstore : (Horo.launch a).privateInstance = true := by rw [Settings.launch_eq]
  rw [Settings.setCurrentPerson, Settings.saveObject, Settings.launch_saveDictionary ha]
  exact currentPerson_setCurrentPerson hstore h

/-! ### The persons of the operations -/

theorem plain_logout {p : Person} (h : p.Plain) : p.logout.Plain :=
  ⟨(by decide : cstr "" = ""), (by decide : cstr "" = ""), (by decide : cstr "" = ""), h.zodiac,
    h.known⟩

theorem plain_setBirthdayDate {p : Person} (h : p.Plain) {date : DateWrapper} (hd : Known date) :
    (p.setBirthdayDate date).Plain :=
  ⟨h.name, h.imageUrl, h.personUrl, rfl, hd⟩

/-- What is read as a string is a C string. -/
theorem cstr_asString {v : Value} {s : String} (h : v.asString = some s) : cstr s = s := by
  have hint : ∀ i : Int, cstr (String.ofList (intDigits i)) = String.ofList (intDigits i) := by
    intro i
    refine cstr_of_notMem fun hmem => ?_
    rw [String.toList_ofList] at hmem
    rcases mem_intDigits hmem with h | h <;> cases h
  cases v with
  | null => cases h; decide
  | int i => cases h; exact hint i
  | uint n => cases h; exact hint n
  | real d =>
    cases h
    refine cstr_of_notMem fun hmem => ?_
    rw [String.toList_ofList] at hmem
    exact absurd (Decimal.printChar_print 16 d _ hmem) (by decide)
  | string s => cases h; exact cstr_cstr s
  | bool b => cases h; cases b <;> decide
  | array _ => cases h
  | object _ => cases h

theorem plain_requestUserInformation {data : Value} {p : Person}
    (h : requestUserInformation data = some (some p)) : p.Plain := by
  simp only [requestUserInformation, Option.bind_eq_bind, Option.bind_eq_some_iff] at h
  obtain ⟨_, -, birthday, -, _, -, name, hname, _, -, gender, -, _, -, id, hid, h⟩ := h
  split at h
  · split at h
    · cases h
    · simp only [Option.pure_def, Option.bind_eq_some_iff] at h
      obtain ⟨day, -, month, -, year, -, h⟩ := h
      split at h
      · cases h
      · rename_i hknown
        cases h
        refine ⟨cstr_asString hname, cstr_of_notMem ?_, (by decide : cstr "" = ""), rfl, hknown⟩
        have hid := cstr_eq_self_iff.mp (cstr_asString hid)
        simp [String.toList_append, hid]
  · cases h

/-! ### Runs keep what is stored readable -/

/-- The store is there once the application has been launched, and the current
user and the one stored are such that they can be stored. -/
structure Good (s : CoreComponents) : Prop where
  installed : s.app.settings = true → s.app.privateInstance = true
  person : ∀ p, s.person = some p → p.Plain
  stored : ∃ q : Option Person,
    Settings.currentPerson (Horo.launch s.app) = some q ∧ ∀ p, q = some p → p.Plain

theorem currentPerson_empty {a : App} (h : a.defaults = fun _ => none) :
    Settings.currentPerson (Horo.launch a) = some none := by
  have hload : loadString "currentPerson" (Horo.launch a) = "" := by
    rw [Settings.launch_eq]
    simp [loadString, h]
  have hparse : parse "" = none := rfl
  unfold Settings.currentPerson Settings.dictionaryWithKey
  rw [hload, hparse]
  rfl

theorem good_initial {s : CoreComponents} (h : installation.init s) : Good s ∧ InSync s := by
  have hs : s = ⟨⟨fun _ => none, false, false⟩, none⟩ := h
  subst hs
  have hread := @currentPerson_empty ⟨fun _ => none, false, false⟩ rfl
  exact ⟨⟨fun h => Bool.noConfusion h, fun _ h => (by cases h), none, hread, fun _ h => (by cases h)⟩,
    hread⟩

/-- A person that is set is also stored. -/
theorem inSync_setPerson {s : CoreComponents} (hg : Good s) (hs : s.app.settings = true)
    {p : Person} (hp : p.Plain) : Good (setPerson p s) ∧ InSync (setPerson p s) := by
  have hstore := hg.installed hs
  have hread := currentPerson_launch hstore hp
  refine ⟨⟨fun _ => ?_, fun q hq => ?_, some p, hread, fun q hq => ?_⟩, hread⟩
  · show (Settings.setCurrentPerson p s.app).privateInstance = true
    rw [Settings.setCurrentPerson, Settings.saveObject, Settings.saveDictionary_privateInstance]
    exact hstore
  · obtain rfl : p = q := Option.some.inj hq
    exact hp
  · obtain rfl : p = q := Option.some.inj hq
    exact hp

/-- The three logins are one. -/
theorem login_eq (screen : Screen) (person : Option Person) (s : CoreComponents) :
    screen.login person s = match person with
      | some p => setPerson p s
      | none => s := by
  cases screen <;> cases person <;> rfl

/-- What a step does: it sets a person, launches, leaves everything as it is,
or logs out. -/
theorem step_cases {s : CoreComponents} (hg : Good s) {e : Event} (ha : installation.admits s e) :
    (s.app.settings = true ∧ ∃ p : Person, p.Plain ∧ step s e = setPerson p s ∧ ClearsNothing s e) ∨
    (step s e = performShowingOperations s ∧ ClearsNothing s e) ∨
    (step s e = s ∧ ClearsNothing s e) ∨
    (e = .userLoggedOut ∧ ∃ p, s.person = some p ∧ step s e = { s with person := some p.logout }) := by
  cases e with
  | launch => exact .inr (.inl ⟨rfl, trivial⟩)
  | createPersonWithBirthdayDate date =>
    obtain ⟨hs, hknown⟩ := ha
    refine .inl ⟨hs, _, ?_, rfl, trivial⟩
    exact ⟨(by decide : cstr "" = ""), (by decide : cstr "" = ""), (by decide : cstr "" = ""), rfl,
      hknown⟩
  | loggedIn screen data =>
    obtain ⟨hs, hdata⟩ := ha
    obtain ⟨person, hperson⟩ := Option.isSome_iff_exists.mp hdata
    have hstep : step s (.loggedIn screen data) = screen.login person s := by simp [step, hperson]
    rw [hstep, login_eq]
    cases person with
    | none => exact .inr (.inr (.inl ⟨rfl, trivial⟩))
    | some p => exact .inl ⟨hs, p, plain_requestUserInformation hperson, rfl, trivial⟩
  | birthdayDateChanged date =>
    obtain ⟨hs, hperson, hknown⟩ := ha
    obtain ⟨p, hp⟩ := Option.isSome_iff_exists.mp hperson
    refine .inl ⟨hs, p.setBirthdayDate date, plain_setBirthdayDate (hg.person p hp) hknown, ?_,
      trivial⟩
    simp [step, AccountScreenModel.birthdayDateChanged, hp]
  | userLoggedOut =>
    obtain ⟨p, hp⟩ := Option.isSome_iff_exists.mp ha.2
    refine .inr (.inr (.inr ⟨rfl, p, hp, ?_⟩))
    simp [step, AccountScreenModel.userLoggedOut, hp]

/-- A launch loads what is stored. -/
theorem inSync_launch {s : CoreComponents} (hg : Good s) :
    Good (performShowingOperations s) ∧ InSync (performShowingOperations s) := by
  obtain ⟨q, hread, hq⟩ := hg.stored
  have hagain : Settings.currentPerson (Horo.launch (performShowingOperations s).app) = some q := by
    show Settings.currentPerson (Horo.launch (Horo.launch s.app)) = some q
    rw [Settings.launch_launch, hread]
  have hperson : (performShowingOperations s).person = q := by
    simp [performShowingOperations, hread]
  refine ⟨⟨fun _ => ?_, fun p hp => hq p (hperson ▸ hp), q, hagain, hq⟩, ?_⟩
  · show (Horo.launch s.app).privateInstance = true
    rw [Settings.launch_eq]
  · rw [InSync, hagain, hperson]

theorem good_step {s : CoreComponents} {e : Event} (hg : Good s) (ha : installation.admits s e) :
    Good (installation.step s e) := by
  show Good (step s e)
  rcases step_cases hg ha with ⟨hs, p, hp, hstep, _⟩ | ⟨hstep, _⟩ | ⟨hstep, _⟩ | ⟨_, p, hp, hstep⟩
  · rw [hstep]
    exact (inSync_setPerson hg hs hp).1
  · rw [hstep]
    exact (inSync_launch hg).1
  · rw [hstep]
    exact hg
  · rw [hstep]
    refine ⟨hg.installed, fun q hq => ?_, hg.stored⟩
    obtain rfl : p.logout = q := Option.some.inj hq
    exact plain_logout (hg.person p hp)

/-- A step keeps the copy that is stored true exactly if it is no logout that
clears something. -/
theorem inSync_step_iff {s : CoreComponents} {e : Event} (hg : Good s) (hsync : InSync s)
    (ha : installation.admits s e) : InSync (installation.step s e) ↔ ClearsNothing s e := by
  show InSync (step s e) ↔ ClearsNothing s e
  rcases step_cases hg ha with ⟨hs, p, hp, hstep, hok⟩ | ⟨hstep, hok⟩ | ⟨hstep, hok⟩ | ⟨rfl, p, hp, hstep⟩
  · rw [hstep]
    exact iff_of_true (inSync_setPerson hg hs hp).2 hok
  · rw [hstep]
    exact iff_of_true (inSync_launch hg).2 hok
  · rw [hstep]
    exact iff_of_true hsync hok
  · have hread : Settings.currentPerson (Horo.launch s.app) = some (some p) := hp ▸ hsync
    rw [hstep]
    simp only [InSync, hread, ClearsNothing, hp, Option.mem_def, Option.some.injEq, forall_eq']
    exact eq_comm

/-! ### The theorem -/

/-- **When the current user is the one stored.** Along a run of account
operations the settings would at every moment load the current user at the
next launch if and only if no logout finds something to clear. -/
theorem in_sync_iff {s : CoreComponents} (hinit : installation.init s) {es : List Event}
    (hr : installation.Run anyEvent s es) :
    AlwaysInSync s es ↔ installation.Run ClearsNothing s es :=
  forall_prefix_iff_run (fun _ _ => good_step) (fun _ _ => inSync_step_iff)
    (good_initial hinit).1 (good_initial hinit).2 hr

def installed : CoreComponents := ⟨⟨fun _ => none, false, false⟩, none⟩

/-- What Facebook answers for Ann. -/
def ann : Value :=
  .object [("birthday", .string "21/3/1990"), ("gender", .string "female"), ("id", .string "7"),
    ("name", .string "Ann")]

/-- A user that logs in with Facebook and moves her birthday. -/
def annMoves : List Event :=
  [.launch, .createPersonWithBirthdayDate ⟨5, 12, 2017⟩, .loggedIn .account ann,
    .birthdayDateChanged ⟨20, 3, 1990⟩, .launch]

theorem annMoves_in_sync : AlwaysInSync installed annMoves :=
  (in_sync_iff rfl (by decide +kernel)).mpr (by decide +kernel)

/-- The person that is made of it. -/
def annPerson : Person :=
  { zodiac := some .aries, name := "Ann", personUrl := "",
    imageUrl := "https://graph.facebook.com/7/picture?type=normal", gender := .female,
    status := .completed, type := .user, birthdayDate := ⟨21, 3, 1990⟩, withFacebook := true }

theorem requestUserInformation_ann : requestUserInformation ann = some (some annPerson) := by
  decide +kernel

/-- She logs out. -/
def annLeaves : List Event := [.launch, .loggedIn .menu ann, .userLoggedOut]

/-- She is gone, and would be there at the next launch. -/
theorem annLeaves_stays_stored :
    installation.Run anyEvent installed annLeaves ∧
      (installation.exec installed annLeaves).person = some annPerson.logout ∧
      Settings.currentPerson (Horo.launch (installation.exec installed annLeaves).app) =
        some (some annPerson) ∧
      ¬ AlwaysInSync installed annLeaves := by
  have hexec : installation.exec installed annLeaves = AccountScreenModel.userLoggedOut
      (setPerson annPerson (performShowingOperations installed)) := by
    show AccountScreenModel.userLoggedOut (step (performShowingOperations installed)
      (.loggedIn .menu ann)) = _
    simp only [step, requestUserInformation_ann, Option.getD_some, login_eq]
  have hstored : Settings.currentPerson (Horo.launch (installation.exec installed annLeaves).app) =
      some (some annPerson) := by
    rw [hexec]
    exact currentPerson_launch rfl (plain_requestUserInformation requestUserInformation_ann)
  have hperson : (installation.exec installed annLeaves).person = some annPerson.logout := by
    rw [hexec]
    rfl
  refine ⟨by decide +kernel, hperson, hstored, fun h => ?_⟩
  have hsync := h annLeaves (List.prefix_refl _)
  rw [InSync, hstored, hperson] at hsync
  exact absurd hsync (by decide)

end Account
end Horo
