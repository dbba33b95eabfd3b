/-
# The push settings that are sent

`src/managers/notifications/notificationsimpl.cc` and the part of
`src/ios/NotificationsObjc` it hands the settings to, over the store of the
settings and the wrapper of the push SDK. A launch keeps the store and the
interests of the device and loses the rest.

* `follows_iff_delivered`: after a send the last command that was carried out,
  or is pending in this launch, is what the settings ask for exactly when the
  send was not suppressed; or it was, the command sent last stands, and the
  notifications are disabled or the room it names is still the same; or the
  wrapper has abandoned it, or it was lost with its launch, and the command
  before it that stands happens to be what is asked for.
-/
import Horo.Settings
import Horo.Push.PushNotificationsWrapper

namespace Horo
namespace Notifications

open Json Lib Lib.EventSystem

/-! ### The program -/

/-- The settings a command is computed from. -/
structure PushSettings where
  type : ZodiacTypes
  time : Int32
  disabled : Bool
  deriving DecidableEq, Repr

/-- A command of this launch. -/
structure Command where
  request : Push.Request
  carriedOut : Bool
  deriving DecidableEq, Repr

structure State where
  app : App
  /-- The sign of `components_->person_`. -/
  type : ZodiacTypes
  /-- The device's `secondsFromGMT`. -/
  secondsFromGMT : Int
  wrapper : Push.State
  /-- The commands of this launch, the last one first. -/
  commands : List Command
  /-- The last command that was carried out in an earlier launch. -/
  earlier : Option Push.Request
  /-- What the last command was computed from, in this launch or an earlier. -/
  sent : Option (PushSettings × Int)
  /-- That command had not been carried out when its launch ended. -/
  lost : Bool

/-- `pushTime() - timezoneOffset()`, as an `int`. -/
def roomTime (pushTime : Int32) (secondsFromGMT : Int) : Int :=
  (pushTime.toInt * 3600 - secondsFromGMT).tdiv 3600

def getRoomName (zodiacName : String) (pushTime : Int32) (secondsFromGMT : Int) : String :=
  zodiacName ++ String.ofList (intDigits (roomTime pushTime secondsFromGMT))

def State.giveCommand (s : State) (request : Push.Request) : State :=
  { s with wrapper := request.perform s.wrapper, commands := ⟨request, false⟩ :: s.commands }

/-- The request of `sendSettingsForZodiacName`. -/
def requestForZodiacName (zodiacName : String) (s : State) : Option Push.Request := do
  if ← Settings.notificationsDisabled s.app then return .unsubscribe
  else return .subscribeToRoom (getRoomName zodiacName (← Settings.pushTime s.app) s.secondsFromGMT)

def sendSettingsForZodiacName (zodiacName : String) (s : State) : Option State := do
  return s.giveCommand (← requestForZodiacName zodiacName s)

def sendSettings (s : State) : Option State := sendSettingsForZodiacName s.type.name.toLower s

/-- What `generatePushSettingsString` writes: nothing of the time zone. -/
def pushSettingsString (p : PushSettings) : String :=
  write (.object [("disabled", .bool p.disabled), ("time", .int p.time.toInt),
    ("type", .int p.type.toInt32.toInt)])

/-- The settings there are. -/
def State.pushSettings (s : State) : Option PushSettings := do
  let time ← Settings.pushTime s.app
  let disabled ← Settings.notificationsDisabled s.app
  return ⟨s.type, time, disabled⟩

def generatePushSettingsString (s : State) : Option String := s.pushSettings.map pushSettingsString

/-- The send would be suppressed. -/
def State.Suppressed (s : State) : Prop :=
  generatePushSettingsString s = some (loadString "sendedPushSettings" s.app)

instance (s : State) : Decidable s.Suppressed := inferInstanceAs (Decidable (_ = _))

/-- `sendSettingsIfNeeded`, with what it keeps in `sendedPushSettings` for the
next time; `none` where a read throws. -/
def sendSettingsIfNeeded (s : State) : Option State := do
  let settings ← s.pushSettings
  let checkingString := pushSettingsString settings
  if checkingString = loadString "sendedPushSettings" s.app then return s
  else
    let s ← sendSettings { s with app := saveString "sendedPushSettings" checkingString s.app }
    return { s with sent := some (settings, s.secondsFromGMT), lost := false }

/-! ### Runs -/

inductive Event
  | launch
  | zodiacChanged (type : ZodiacTypes)
  | setPushTime (pushTime : Int32)
  | setNotificationsDisabled (disabled : Bool)
  | timeZoneChanged (secondsFromGMT : Int)
  | didRegisterForRemoteNotifications (deviceToken : List UInt8)
  | didFailToRegisterForRemoteNotifications
  | didEnterBackground
  /-- The main queue and the SDK go on with what the wrapper has asked for. -/
  | wrapper (e : Push.Event)
  deriving DecidableEq, Repr

/-- The request that an applied call carries out. -/
def carriedOutBy : Push.Event → Option Push.Request
  | .applied (.subscribe interest) => some (.subscribeToRoom interest)
  | .applied (.unsubscribeAll false) => some .unsubscribe
  | _ => none

/-- The last command for `request` that has not been carried out is carried out. -/
def carryOut (request : Push.Request) : List Command → List Command
  | [] => []
  | c :: cs =>
    if c.request = request ∧ c.carriedOut = false then { c with carriedOut := true } :: cs
    else c :: carryOut request cs

/-- The events in which `sendSettingsIfNeeded` is called, and what comes before
the call. -/
def beforeSend : Event → State → Option State
  | .didRegisterForRemoteNotifications deviceToken, s =>
      some { s with wrapper := Push.registered deviceToken s.wrapper }
  | .didFailToRegisterForRemoteNotifications, s => some s
  | .didEnterBackground, s => some s
  | _, _ => none

def restart (s : State) : State :=
  { s with
    app := Horo.launch s.app
    wrapper := Push.launched s.wrapper.interests
    commands := []
    earlier := ((s.commands.find? (·.carriedOut)).map (·.request)).or s.earlier
    lost := s.lost || s.commands.head?.any (!·.carriedOut) }

def step (s : State) (e : Event) : State :=
  match e with
  | .launch => restart s
  | .zodiacChanged type => { s with type }
  | .setPushTime pushTime => { s with app := Settings.setPushTime pushTime s.app }
  | .setNotificationsDisabled disabled =>
      { s with app := Settings.setNotificationsDisabled disabled s.app }
  | .timeZoneChanged secondsFromGMT => { s with secondsFromGMT }
  | .wrapper e =>
      { s with wrapper := Push.step s.wrapper e
               commands := match carriedOutBy e with
                 | some request => carryOut request s.commands
                 | none => s.commands }
  | e => ((beforeSend e s).bind sendSettingsIfNeeded).getD s

/-- Sends need a person with a known sign; the wrapper's own requests come
from the sends alone. -/
def admits (s : State) : Event → Prop
  | .launch => True
  | .wrapper e => Push.device.admits s.wrapper e ∧ e.isReply = true
  | .didRegisterForRemoteNotifications _ | .didFailToRegisterForRemoteNotifications
  | .didEnterBackground => s.app.settings = true ∧ s.type ≠ .unknown
  | _ => s.app.settings = true

def initial (secondsFromGMT : Int) : State :=
  { app := ⟨fun _ => none, false, false⟩, type := .unknown, secondsFromGMT,
    wrapper := Push.launched ∅, commands := [], earlier := none, sent := none, lost := false }

/-- The life of an installation. -/
def installation : EventSystem State Event where
  init s := ∃ secondsFromGMT, s = initial secondsFromGMT
  admits := admits
  step := step

instance (s : State) (e : Event) : Decidable (installation.admits s e) := by
  cases e <;> simp only [installation, admits] <;> infer_instance

/-! ### What is claimed -/

/-- The command the settings ask for. -/
def PushSettings.request (p : PushSettings) (secondsFromGMT : Int) : Push.Request :=
  if p.disabled then .unsubscribe
  else .subscribeToRoom (getRoomName p.type.name.toLower p.time secondsFromGMT)

/-- The command has been carried out, or is pending, as what it asks for. One
that is neither has been abandoned: the wrapper has emptied its room. -/
def Command.stands (wrapper : Push.State) (c : Command) : Bool :=
  c.carriedOut || decide (wrapper.Pending c.request)

/-- The last of these commands that stands, or of those of the earlier launches. -/
def State.lastOf (s : State) (commands : List Command) : Option Push.Request :=
  ((commands.find? (·.stands s.wrapper)).map (·.request)).or s.earlier

/-- The last command that was given in this launch, or carried out in one before. -/
def State.lastGiven (s : State) : Option Push.Request :=
  (s.commands.head?.map (·.request)).or s.earlier

/-- The last command that was carried out, or is pending in this launch. -/
def State.lastCommand (s : State) : Option Push.Request := s.lastOf s.commands

/-- The subscription follows the settings. -/
def State.Follows (s : State) : Prop :=
  ∃ p, s.pushSettings = some p ∧ s.lastCommand = some (p.request s.secondsFromGMT)

/-- The command that was sent last is neither abandoned nor lost. -/
def State.stands (s : State) : Bool :=
  match s.commands with
  | [] => !s.lost
  | c :: _ => c.stands s.wrapper

/-- Before a send: it is not suppressed; or the command sent last stands, and
notifications are disabled or it was for the same room; or it does not, and the
one before it that stands is as good. -/
def State.Delivered (s : State) : Prop :=
  ¬ s.Suppressed ∨
    ∃ p offset, s.sent = some (p, offset) ∧
      if s.stands then p.disabled = true ∨ roomTime p.time s.secondsFromGMT = roomTime p.time offset
      else s.lastOf s.commands.tail = some (p.request s.secondsFromGMT)

/-! ### What the fingerprint tells -/

/-- The members that are written. -/
def members (p : PushSettings) : Members :=
  [("disabled", .bool p.disabled), ("time", .int p.time.toInt), ("type", .int p.type.toInt32.toInt)]

theorem members_plain (p : PushSettings) : ∀ m ∈ members p, m.2.Plain ∧ cstr m.1 = m.1 := by
  intro m hm
  simp only [members, List.mem_cons, List.not_mem_nil, or_false] at hm
  rcases hm with rfl | rfl | rfl
  · exact ⟨trivial, show cstr "disabled" = "disabled" by decide⟩
  · exact ⟨Value.inIntRange_toInt _, show cstr "time" = "time" by decide⟩
  · exact ⟨Value.inIntRange_toInt _, show cstr "type" = "type" by decide⟩

/-- What a state carries: the settings can be read, the fingerprint is that of
the last send, and the command of that send is the last one, unless it is lost. -/
structure Sound (s : State) : Prop where
  stored : ∃ time disabled, Settings.Stored time disabled s.app
  fingerprint : loadString "sendedPushSettings" (Horo.launch s.app) =
    (s.sent.map fun x => pushSettingsString x.1).getD ""
  kept : ∀ p offset, s.sent = some (p, offset) → s.lost = false →
    s.lastGiven = some (p.request offset)
  lost : s.lost = true → s.commands = []

theorem head?_carryOut (request : Push.Request) : ∀ cs : List Command,
    (carryOut request cs).head?.map (·.request) = cs.head?.map (·.request)
  | [] => rfl
  | c :: cs => by
    unfold carryOut
    split <;> rfl

theorem sound_initial (secondsFromGMT : Int) : Sound (initial secondsFromGMT) := by
  refine ⟨⟨none, none, Settings.stored_init rfl⟩, ?_, fun p offset h => ?_, fun _ => rfl⟩
  · rw [Settings.launch_eq]; rfl
  · cases h

theorem sound_restart {s : State} (h : Sound s) : Sound (restart s) := by
  obtain ⟨time, disabled, hst⟩ := h.stored
  refine ⟨⟨time, disabled, Settings.stored_step hst (.inl rfl)⟩, ?_, fun p offset hsent hl => ?_,
    fun _ => rfl⟩
  · show loadString _ (Horo.launch (Horo.launch s.app)) = _
    rw [Settings.launch_launch]; exact h.fingerprint
  · obtain ⟨hl, hhead⟩ := Bool.or_eq_false_iff.mp hl
    have hkept := h.kept p offset hsent hl
    rw [← hkept]
    rcases hc : s.commands with _ | ⟨c, cs⟩
    · simp [restart, State.lastGiven, hc]
    · have hcarried : c.carriedOut = true := by simpa [hc] using hhead
      simp [restart, State.lastGiven, hc, hcarried]

/-- The settings can be read once they are there. -/
theorem exists_pushSettings {s : State} (h : Sound s) (hs : s.app.settings = true) :
    ∃ p, s.pushSettings = some p ∧ p.type = s.type := by
  obtain ⟨time, disabled, hst⟩ := h.stored
  have hp := hst.installed hs
  have htime := hst.pushTime
  have hdisabled := hst.notificationsDisabled
  rw [Settings.readInt_launch hp] at htime hdisabled
  refine ⟨⟨s.type, time.getD 0, (if disabled.getD false then (1 : Int32) else 0) != 0⟩, ?_, rfl⟩
  unfold State.pushSettings Settings.pushTime Settings.notificationsDisabled Settings.readBool
  rw [htime, hdisabled]
  rfl

/-- What is stored under another key does not touch the settings. -/
theorem pushSettings_saveDictionary (s : State) {key : String} (h1 : "pushTime" ≠ key)
    (h2 : "notificationsDisabled" ≠ key) (d : Value) :
    ({ s with app := Settings.saveDictionary key d s.app } : State).pushSettings = s.pushSettings := by
  unfold State.pushSettings Settings.pushTime Settings.notificationsDisabled Settings.readBool
  rw [Settings.readInt_of_ne h1, Settings.readInt_of_ne h2]

/-- The request is computed from the settings. -/
theorem requestForZodiacName_eq {s : State} {p : PushSettings} (hp : s.pushSettings = some p) :
    requestForZodiacName s.type.name.toLower s = some (p.request s.secondsFromGMT) := by
  unfold State.pushSettings at hp
  rcases htime : Settings.pushTime s.app with _ | time
  · rw [htime] at hp; cases hp
  rcases hdisabled : Settings.notificationsDisabled s.app with _ | disabled
  · rw [htime, hdisabled] at hp; cases hp
  rw [htime, hdisabled] at hp
  obtain rfl := Option.some.inj hp
  unfold requestForZodiacName PushSettings.request
  rw [htime, hdisabled]
  rcases disabled with _ | _ <;> rfl

/-- The state after a send that was not suppressed. -/
def State.sentWith (s : State) (p : PushSettings) : State :=
  { ({ s with app := Settings.saveDictionary "sendedPushSettings" (.object (members p)) s.app }
      : State).giveCommand (p.request s.secondsFromGMT) with
    sent := some (p, s.secondsFromGMT), lost := false }

/-- What `sendSettingsIfNeeded` does. -/
theorem sendSettingsIfNeeded_eq {s : State} {p : PushSettings} (hp : s.pushSettings = some p) :
    sendSettingsIfNeeded s = some (if s.Suppressed then s else s.sentWith p) := by
  have hsuppressed : s.Suppressed ↔ pushSettingsString p = loadString "sendedPushSettings" s.app := by
    rw [State.Suppressed, generatePushSettingsString, hp, Option.map_some, Option.some.injEq]
  unfold sendSettingsIfNeeded
  rw [hp]
  simp only [Option.bind_eq_bind, Option.bind_some, Option.pure_def]
  by_cases h : s.Suppressed
  · rw [if_pos (hsuppressed.mp h), if_pos h]
  · rw [if_neg fun he => h (hsuppressed.mpr he), if_neg h]
    have hsave : saveString "sendedPushSettings" (pushSettingsString p) s.app =
        Settings.saveDictionary "sendedPushSettings" (.object (members p)) s.app := rfl
    have hframe := @pushSettings_saveDictionary s "sendedPushSettings" (by decide) (by decide)
      (.object (members p))
    have hrequest := requestForZodiacName_eq (hframe.trans hp)
    rw [hsave]
    unfold sendSettings sendSettingsForZodiacName
    rw [hrequest]
    rfl

theorem sound_sentWith {s : State} (h : Sound s) (hs : s.app.settings = true) (p : PushSettings) :
    Sound (s.sentWith p) := by
  obtain ⟨time, disabled, hst⟩ := h.stored
  have hp := hst.installed hs
  have hlaunch : Horo.launch (Settings.saveDictionary "sendedPushSettings" (.object (members p)) s.app) =
      Settings.saveDictionary "sendedPushSettings" (.object (members p)) (Horo.launch s.app) :=
    Settings.launch_saveDictionary hp _
  have hread : loadString "sendedPushSettings" (Settings.saveDictionary "sendedPushSettings"
      (.object (members p)) (Horo.launch s.app)) = pushSettingsString p :=
    Settings.loadString_saveDictionary (by rw [Settings.launch_eq]) (List.cons_ne_nil _ _)
      fun m hm => (members_plain p m hm).1
  refine ⟨⟨time, disabled, ⟨fun _ => ?_, ?_, ?_⟩⟩, ?_, fun q offset hsent _ => ?_, fun hl => ?_⟩
  · show (Settings.saveDictionary _ _ s.app).privateInstance = true
    rw [Settings.saveDictionary_privateInstance]; exact hp
  · show Settings.readInt "pushTime" (Horo.launch (Settings.saveDictionary _ _ s.app)) = _
    rw [Settings.readInt_launch_of_ne hp (by decide)]; exact hst.pushTime
  · show Settings.readInt "notificationsDisabled" (Horo.launch (Settings.saveDictionary _ _ s.app)) = _
    rw [Settings.readInt_launch_of_ne hp (by decide)]; exact hst.notificationsDisabled
  · show loadString _ (Horo.launch (Settings.saveDictionary _ _ s.app)) = pushSettingsString p
    rw [hlaunch, hread]
  · obtain ⟨rfl, rfl⟩ := Prod.mk.inj (Option.some.inj hsent)
    rfl
  · cases hl

/-- Only the launch and the sends look at the history. -/
theorem Sound.of_eq {s t : State} (h : Sound s) (happ : t.app = s.app) (hsent : t.sent = s.sent)
    (hlost : t.lost = s.lost) (hearlier : t.earlier = s.earlier)
    (hcommands : t.commands.head?.map (·.request) = s.commands.head?.map (·.request)) : Sound t := by
  refine ⟨by rw [happ]; exact h.stored, by rw [happ, hsent]; exact h.fingerprint, fun p offset hp hl => ?_,
    fun hl => ?_⟩
  · have hkept := h.kept p offset (hsent ▸ hp) (hlost ▸ hl)
    rw [← hkept]
    unfold State.lastGiven
    rw [hcommands, hearlier]
  · have hempty := h.lost (hlost ▸ hl)
    rw [hempty] at hcommands
    rcases ht : t.commands with _ | ⟨c, cs⟩
    · rfl
    · rw [ht] at hcommands; cases hcommands

/-- A setting is saved under its own key. -/
theorem Sound.of_save {s : State} (h : Sound s) {e : Settings.Event}
    (ha : Settings.installation.admits s.app e)
    (hframe : loadString "sendedPushSettings" (Horo.launch (Settings.step s.app e)) =
      loadString "sendedPushSettings" (Horo.launch s.app)) :
    Sound { s with app := Settings.step s.app e } := by
  obtain ⟨time, disabled, hst⟩ := h.stored
  exact ⟨⟨_, _, Settings.stored_step hst ha⟩, hframe.trans h.fingerprint, h.kept, h.lost⟩

theorem sound_send {s s₁ : State} (h : Sound s) {e : Event} (ha : admits s e)
    (he : beforeSend e s = some s₁) : Sound s₁ ∧ s₁.app.settings = true := by
  rcases e with _ | _ | _ | _ | _ | t | _ | _ | _ <;> cases he
  · exact ⟨h.of_eq rfl rfl rfl rfl rfl, ha.1⟩
  · exact ⟨h, ha.1⟩
  · exact ⟨h, ha.1⟩

theorem sound_step {s : State} (h : Sound s) {e : Event} (ha : admits s e) : Sound (step s e) := by
  have hsend : ∀ s₁, beforeSend e s = some s₁ →
      Sound (((beforeSend e s).bind sendSettingsIfNeeded).getD s) := by
    intro s₁ he
    obtain ⟨h₁, hs₁⟩ := sound_send h ha he
    obtain ⟨p, hp, -⟩ := exists_pushSettings h₁ hs₁
    rw [he, Option.bind_some, sendSettingsIfNeeded_eq hp, Option.getD_some]
    split
    · exact h₁
    · exact sound_sentWith h₁ hs₁ p
  have hprivate : s.app.settings = true → s.app.privateInstance = true := by
    obtain ⟨time, disabled, hst⟩ := h.stored
    exact hst.installed
  rcases e with _ | z | t | d | o | t | _ | _ | e
  · exact sound_restart h
  · exact h.of_eq rfl rfl rfl rfl rfl
  · refine h.of_save (e := .setPushTime t) (.inr ha) ?_
    show loadString _ (Horo.launch (Settings.saveDictionary "pushTime" _ s.app)) = _
    rw [Settings.launch_saveDictionary (hprivate ha), Settings.loadString_of_ne (by decide)]
  · refine h.of_save (e := .setNotificationsDisabled d) (.inr ha) ?_
    show loadString _ (Horo.launch (Settings.saveDictionary "notificationsDisabled" _ s.app)) = _
    rw [Settings.launch_saveDictionary (hprivate ha), Settings.loadString_of_ne (by decide)]
  · exact h.of_eq rfl rfl rfl rfl rfl
  · exact hsend _ rfl
  · exact hsend _ rfl
  · exact hsend _ rfl
  · refine h.of_eq rfl rfl rfl rfl ?_
    show (match carriedOutBy e with
      | some request => carryOut request s.commands
      | none => s.commands).head?.map Command.request = s.commands.head?.map Command.request
    split
    · exact head?_carryOut _ _
    · rfl

/-- The completion of a subscription empties the room of the command that was
given before it: what stands is the old room. -/
example : (installation.exec (initial 10800)
    [.launch, .zodiacChanged .leo, .setPushTime 8, .didRegisterForRemoteNotifications [0],
     .wrapper (.applied (.registerDeviceToken [0])), .wrapper (.completed (.registerDeviceToken [0])),
     .wrapper .runDispatched, .wrapper (.applied (.unsubscribeAll true)),
     .wrapper (.completed (.unsubscribeAll true)), .wrapper (.applied (.subscribe "leo5")),
     .setPushTime 9, .didEnterBackground, .wrapper (.completed (.subscribe "leo5"))]).lastCommand =
    some (.subscribeToRoom "leo5") := by decide +kernel

/-- A subscription that is sent before the registration and carried out after
it, and a second send that is suppressed. -/
def delivered : List Event :=
  [.launch, .zodiacChanged .leo, .setPushTime 8, .didEnterBackground,
   .didRegisterForRemoteNotifications [0], .wrapper (.applied (.registerDeviceToken [0])),
   .wrapper (.completed (.registerDeviceToken [0])), .wrapper .runDispatched,
   .wrapper (.applied (.unsubscribeAll true)), .wrapper (.completed (.unsubscribeAll true)),
   .wrapper (.applied (.subscribe "leo5")), .launch]

end Notifications
end Horo
