/-
# The settings and their store

`src/managers/serializer`, `src/managers/settings`, `src/ios/SerializerObjc`
and the start-up of `src/ios/ManualInitialization`. `NSUserDefaults` is all
that lasts from one launch to the next. A read is `none` where jsoncpp throws.

* `reads_last_set_iff`: in every state of every run the settings read what was
  set last, and the default where nothing was, exactly when a push time has
  been set: `NotificationsObjc` builds the settings before `SerializerObjc`
  installs the store, so the defaults never reach it.
-/
import Horo.Lib.Reach
import Horo.Json.Reader
import Horo.Data.Person

namespace Horo

open Json Lib Lib.EventSystem

/-! ### The store -/

/-- The strings of `NSUserDefaults`. -/
abbrev UserDefaults := String → Option String

/-- The process: what it finds in `NSUserDefaults`, whether
`SerializerImpl::setPrivateInstance` has been called, and whether
`Managers::settings` has built its instance. -/
structure App where
  defaults : UserDefaults
  privateInstance : Bool
  settings : Bool

/-- `SerializerImpl::saveString`. -/
def saveString (key value : String) (a : App) : App :=
  if a.privateInstance then { a with defaults := Function.update a.defaults key (some (cstr value)) }
  else a

/-- `SerializerImpl::loadString`. -/
def loadString (key : String) (a : App) : String :=
  if a.privateInstance then (a.defaults key).getD "" else ""

/-! ### `_Settings` -/

namespace Settings

def kPushTimeDefaultValue : Int32 := 11

def dictionaryWithKey (key : String) (a : App) : Value := (parse (loadString key a)).getD .null

def saveDictionary (key : String) (dictionary : Value) (a : App) : App :=
  saveString key (write dictionary) a

def saveObject (key : String) (person : Person) (a : App) : App :=
  saveDictionary key person.encode a

def saveInt (key : String) (value : Int32) (a : App) : App :=
  saveDictionary key (.object [(key, .int value.toInt)]) a

def readInt (key : String) (a : App) : Option Int32 := do
  (← (dictionaryWithKey key a).get key).asInt

def saveBool (key : String) (value : Bool) (a : App) : App :=
  saveDictionary key (.object [(key, .bool value)]) a

/-- `readBool` goes through `asInt` too. -/
def readBool (key : String) (a : App) : Option Bool := (readInt key a).map (· != 0)

def currentPerson (a : App) : Option (Option Person) := do
  let person ← Person.decode (dictionaryWithKey "currentPerson" a)
  return if person.zodiacType = .unknown then none else some person

def setCurrentPerson (person : Person) (a : App) : App := saveObject "currentPerson" person a

def pushTime (a : App) : Option Int32 := readInt "pushTime" a

def setPushTime (pushTime : Int32) (a : App) : App := saveInt "pushTime" pushTime a

def notificationsDisabled (a : App) : Option Bool := readBool "notificationsDisabled" a

def setNotificationsDisabled (disabled : Bool) (a : App) : App :=
  saveBool "notificationsDisabled" disabled a

def initializeDefaults (a : App) : App := setPushTime kPushTimeDefaultValue a

/-- The constructor. -/
def construct (a : App) : App :=
  if readInt "initialized" a = some 0 then saveInt "initialized" 1 (initializeDefaults a) else a

end Settings

/-- `Managers::settings`. -/
def managersSettings (a : App) : App :=
  if a.settings then a else Settings.construct { a with settings := true }

/-! ### Start-up -/

/-- The classes that `ManualInitialization` loads. -/
inductive ClassObjc
  | database | notificationCenter | notifications | analytics | serializer | firestore
  | facebookManager | screensManager | webViewServiceFactory | ntp | timerFactory
  | viewControllerInjector
  deriving DecidableEq, Repr

/-- What `+doLoading` of a class does here. `NotificationsCC::shared` asks for
the settings; the other classes install their own instances. -/
def ClassObjc.doLoading : ClassObjc → App → App
  | .notifications, a => managersSettings a
  | .serializer, a => { a with privateInstance := true }
  | _, a => a

/-- The order of `ManualInitialization`. -/
def manualInitialization : List ClassObjc :=
  [.database, .notificationCenter, .notifications, .analytics, .serializer, .firestore,
    .facebookManager, .screensManager, .webViewServiceFactory, .ntp, .timerFactory,
    .viewControllerInjector]

def doLoading (a : App) : App := manualInitialization.foldl (fun a cls => cls.doLoading a) a

/-- A new process on what the earlier ones have stored. -/
def launch (a : App) : App :=
  doLoading { a with privateInstance := false, settings := false }

namespace Settings

inductive Event
  | launch
  | setPushTime (pushTime : Int32)
  | setNotificationsDisabled (disabled : Bool)
  | setCurrentPerson (person : Person)
  deriving DecidableEq, Repr

def step (a : App) : Event → App
  | .launch => Horo.launch a
  | .setPushTime time => setPushTime time a
  | .setNotificationsDisabled disabled => setNotificationsDisabled disabled a
  | .setCurrentPerson person => setCurrentPerson person a

/-- Any number of launches, from an installation without stored strings. The
settings are there once the application has been launched. -/
def installation : EventSystem App Event where
  init a := a = ⟨fun _ => none, false, false⟩
  admits a e := e = .launch ∨ a.settings = true
  step := step

instance (a : App) (e : Event) : Decidable (installation.admits a e) :=
  inferInstanceAs (Decidable (_ ∨ _))

/-- The push time an event sets. -/
def Event.pushTime : Event → Option Int32
  | .setPushTime time => some time
  | _ => none

/-- What an event sets `notificationsDisabled` to. -/
def Event.disabled : Event → Option Bool
  | .setNotificationsDisabled disabled => some disabled
  | _ => none

/-- The push time set last. -/
def lastPushTime (es : List Event) : Option Int32 :=
  es.foldl (fun last e => e.pushTime.or last) none

/-- The last `setNotificationsDisabled`. -/
def lastDisabled (es : List Event) : Option Bool :=
  es.foldl (fun last e => e.disabled.or last) none

/-- The settings read what was set last, and the default push time when none was. -/
def ReadsLastSet (es : List Event) (a : App) : Prop :=
  pushTime a = some ((lastPushTime es).getD kPushTimeDefaultValue) ∧
    ∀ disabled, lastDisabled es = some disabled → notificationsDisabled a = some disabled

/-! ### What a save does to a read -/

section Reads

variable {a : App} {key other : String}

/-- An object that is saved is stored as its text, if the store is there. -/
theorem loadString_saveDictionary {ms : Members} (ha : a.privateInstance = true) (hne : ms ≠ [])
    (hms : ∀ m ∈ ms, m.2.Plain) :
    loadString key (saveDictionary key (.object ms) a) = write (.object ms) := by
  simp [saveDictionary, saveString, loadString, ha, cstr_write hne hms]

theorem loadString_of_ne (h : other ≠ key) (d : Value) :
    loadString other (saveDictionary key d a) = loadString other a := by
  unfold saveDictionary saveString loadString
  split <;> simp_all

/-- What is saved is read back. -/
theorem dictionaryWithKey_saveDictionary {ms : Members} (ha : a.privateInstance = true)
    (hne : ms ≠ []) (hms : ∀ m ∈ ms, m.2.Plain ∧ cstr m.1 = m.1)
    (hsort : ms.Pairwise Before) :
    dictionaryWithKey key (saveDictionary key (.object ms) a) = .object ms := by
  rw [dictionaryWithKey, loadString_saveDictionary ha hne fun m hm => (hms m hm).1,
    parse_write hne hms hsort, Option.getD_some]

/-- Another key is not touched. -/
theorem dictionaryWithKey_of_ne (h : other ≠ key) (d : Value) :
    dictionaryWithKey other (saveDictionary key d a) = dictionaryWithKey other a := by
  rw [dictionaryWithKey, loadString_of_ne h, dictionaryWithKey]

@[simp] theorem saveDictionary_privateInstance (d : Value) :
    (saveDictionary key d a).privateInstance = a.privateInstance := by
  unfold saveDictionary saveString
  split <;> rfl

theorem readInt_saveInt (ha : a.privateInstance = true) (hkey : cstr key = key) (value : Int32) :
    readInt key (saveInt key value a) = some value := by
  unfold readInt saveInt
  rw [dictionaryWithKey_saveDictionary ha (List.cons_ne_nil _ _)
    (by simpa [Value.Plain, hkey] using Value.inIntRange_toInt value) (List.pairwise_singleton _ _)]
  simp [Value.get, hkey]

theorem readInt_saveBool (ha : a.privateInstance = true) (hkey : cstr key = key) (value : Bool) :
    readInt key (saveBool key value a) = some (if value then 1 else 0) := by
  unfold readInt saveBool
  rw [dictionaryWithKey_saveDictionary ha (List.cons_ne_nil _ _)
    (by simpa [Value.Plain] using hkey) (List.pairwise_singleton _ _)]
  simp [Value.get, hkey, Value.asInt]

theorem readInt_of_ne (h : other ≠ key) (d : Value) :
    readInt other (saveDictionary key d a) = readInt other a := by
  unfold readInt
  rw [dictionaryWithKey_of_ne h]

/-- Nothing is read where nothing is stored. -/
theorem readInt_of_loadString_eq (h : loadString key a = "") : readInt key a = some 0 := by
  have hparse : parse "" = none := rfl
  unfold readInt dictionaryWithKey
  rw [h, hparse]
  rfl

end Reads

/-! ### Launches and runs -/

/-- Without a store the constructor leaves no trace. -/
theorem construct_of_not_privateInstance {a : App} (ha : a.privateInstance = false) :
    construct a = a := by
  have hsave : ∀ key value, saveString key value a = a := fun key value => by simp [saveString, ha]
  unfold construct
  rw [readInt_of_loadString_eq (by simp [loadString, ha])]
  simp [initializeDefaults, setPushTime, saveInt, saveDictionary, hsave]

theorem launch_eq (a : App) :
    launch a = { a with privateInstance := true, settings := true } := by
  have hconstruct : construct ⟨a.defaults, false, true⟩ = ⟨a.defaults, false, true⟩ :=
    construct_of_not_privateInstance rfl
  simp [launch, doLoading, manualInitialization, ClassObjc.doLoading, managersSettings, hconstruct]

section Launch

variable {a : App} {key : String}

theorem readInt_launch (ha : a.privateInstance = true) : readInt key (launch a) = readInt key a := by
  rw [launch_eq]
  simp [readInt, dictionaryWithKey, loadString, ha]

theorem launch_saveDictionary (ha : a.privateInstance = true) (d : Value) :
    launch (saveDictionary key d a) = saveDictionary key d (launch a) := by
  rw [launch_eq, launch_eq]
  simp [saveDictionary, saveString, ha]

/-- What is saved under one key is not read under another one. -/
theorem readInt_launch_of_ne (ha : a.privateInstance = true) (h : other ≠ key) (d : Value) :
    readInt other (launch (saveDictionary key d a)) = readInt other (launch a) := by
  rw [launch_saveDictionary ha, readInt_of_ne h]

theorem launch_launch : launch (launch a) = launch a := by
  rw [launch_eq, launch_eq]

end Launch

/-- What a launch would read when `time` and `disabled` were set last: without
a push time set it reads 0, not the default. -/
structure Stored (time : Option Int32) (disabled : Option Bool) (a : App) : Prop where
  installed : a.settings = true → a.privateInstance = true
  pushTime : readInt "pushTime" (launch a) = some (time.getD 0)
  notificationsDisabled :
    readInt "notificationsDisabled" (launch a) = some (if disabled.getD false then 1 else 0)

theorem stored_step {time : Option Int32} {disabled : Option Bool} {a : App}
    (h : Stored time disabled a) {e : Event} (ha : installation.admits a e) :
    Stored (e.pushTime.or time) (e.disabled.or disabled) (installation.step a e) := by
  have hstore : (launch a).privateInstance = true := by rw [launch_eq]
  -- a save, of whatever key: the store is there
  have hsave : ∀ key d, a.settings = true → (saveDictionary key d a).settings = true →
      (saveDictionary key d a).privateInstance = true := by
    intro key d hs _
    rw [saveDictionary_privateInstance]
    exact h.installed hs
  rcases e with _ | t | d | p
  · refine ⟨fun _ => hstore, ?_, ?_⟩
    · show readInt "pushTime" (launch (launch a)) = _
      rw [launch_launch]; exact h.pushTime
    · show readInt "notificationsDisabled" (launch (launch a)) = _
      rw [launch_launch]; exact h.notificationsDisabled
  · have hs : a.settings = true := ha.resolve_left (by simp)
    have hp := h.installed hs
    refine ⟨fun h' => hsave _ _ hs h', ?_, ?_⟩
    · show readInt "pushTime" (launch (saveInt "pushTime" t a)) = some t
      rw [saveInt, launch_saveDictionary hp, ← saveInt]
      exact readInt_saveInt hstore (by decide) t
    · show readInt "notificationsDisabled" (launch (saveInt "pushTime" t a)) = _
      rw [saveInt, readInt_launch_of_ne hp (by decide)]
      exact h.notificationsDisabled
  · have hs : a.settings = true := ha.resolve_left (by simp)
    have hp := h.installed hs
    refine ⟨fun h' => hsave _ _ hs h', ?_, ?_⟩
    · show readInt "pushTime" (launch (saveBool "notificationsDisabled" d a)) = _
      rw [saveBool, readInt_launch_of_ne hp (by decide)]
      exact h.pushTime
    · show readInt "notificationsDisabled" (launch (saveBool "notificationsDisabled" d a)) = _
      rw [saveBool, launch_saveDictionary hp, ← saveBool]
      exact readInt_saveBool hstore (by decide) d
  · have hs : a.settings = true := ha.resolve_left (by simp)
    have hp := h.installed hs
    refine ⟨fun h' => hsave _ _ hs h', ?_, ?_⟩
    · show readInt "pushTime" (launch (saveObject "currentPerson" p a)) = _
      rw [saveObject, readInt_launch_of_ne hp (by decide)]
      exact h.pushTime
    · show readInt "notificationsDisabled" (launch (saveObject "currentPerson" p a)) = _
      rw [saveObject, readInt_launch_of_ne hp (by decide)]
      exact h.notificationsDisabled

theorem stored_exec : ∀ (es : List Event) (a : App) (time : Option Int32) (disabled : Option Bool),
    Stored time disabled a → installation.Run anyEvent a es →
    Stored (es.foldl (fun last e => e.pushTime.or last) time)
      (es.foldl (fun last e => e.disabled.or last) disabled) (installation.exec a es)
  | [], _, _, _, h, _ => h
  | _ :: es, _, _, _, h, hr => stored_exec es _ _ _ (stored_step h hr.1.1) hr.2

theorem stored_init {a : App} (h : installation.init a) : Stored none none a := by
  have hdefaults : a = ⟨fun _ => none, false, false⟩ := h
  subst hdefaults
  refine ⟨fun h => Bool.noConfusion h, readInt_of_loadString_eq ?_, readInt_of_loadString_eq ?_⟩
  · rw [launch_eq]; rfl
  · rw [launch_eq]; rfl

/-- **When the settings read what was set.** In every state that a run reaches
after a launch, the settings read what was set last, or the default push time
when none was, if and only if a push time has been set. -/
theorem reads_last_set_iff {a : App} (ha : installation.init a) (es : List Event)
    (hr : installation.Run anyEvent a es) (hlaunched : (installation.exec a es).settings = true) :
    ReadsLastSet es (installation.exec a es) ↔ (lastPushTime es).isSome = true := by
  have h := stored_exec es a none none (stored_init ha) hr
  have hp := h.installed hlaunched
  have htime : pushTime (installation.exec a es) = some ((lastPushTime es).getD 0) := by
    rw [pushTime, ← readInt_launch hp]
    exact h.pushTime
  have hdisabled : notificationsDisabled (installation.exec a es) =
      some ((lastDisabled es).getD false) := by
    rw [notificationsDisabled, readBool, ← readInt_launch hp, h.notificationsDisabled]
    show some _ = some ((lastDisabled es).getD false)
    rw [← lastDisabled]
    rcases (lastDisabled es).getD false with _ | _ <;> rfl
  unfold ReadsLastSet
  rw [htime, hdisabled]
  rcases lastPushTime es with _ | t
  · refine ⟨fun hread => ?_, fun hnone => by cases hnone⟩
    exact absurd hread.1 (by decide)
  · refine ⟨fun _ => rfl, fun _ => ⟨rfl, fun d hd => ?_⟩⟩
    rw [hd]; rfl

/-- Two launches, with a push time set in the first. -/
def earlyRiser : List Event :=
  [.launch, .setPushTime 7, .setNotificationsDisabled true, .setCurrentPerson Person.new, .launch]

theorem earlyRiser_reads : ReadsLastSet earlyRiser
    (installation.exec ⟨fun _ => none, false, false⟩ earlyRiser) :=
  (reads_last_set_iff rfl earlyRiser (by decide +kernel) (by decide +kernel)).mpr (by decide)

/-- After a first launch the push time is 0 where the default is 11. -/
theorem first_launch_drops_default :
    installation.Run anyEvent ⟨fun _ => none, false, false⟩ [.launch] ∧
      lastPushTime [.launch] = none ∧ kPushTimeDefaultValue = 11 ∧
      pushTime (installation.exec ⟨fun _ => none, false, false⟩ [.launch]) = some 0 ∧
      ¬ ReadsLastSet [.launch] (installation.exec ⟨fun _ => none, false, false⟩ [.launch]) := by
  have hzero : pushTime (installation.exec ⟨fun _ => none, false, false⟩ [.launch]) = some 0 := by
    decide +kernel
  refine ⟨by decide +kernel, rfl, rfl, hzero, fun h => ?_⟩
  have hdefault := h.1
  rw [hzero] at hdefault
  exact absurd hdefault (by decide)

end Settings

end Horo
