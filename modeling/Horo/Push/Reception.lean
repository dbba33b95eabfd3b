/-
# The pushes that a device receives

The settings ask for a room, the wrapper subscribes the device to it, and the
pusher publishes what the storage has to the rooms of an hour at that hour in
UTC. The subscription outlives the launches; it is that of the last command as
long as no step spoils it (`awaits_step`).

Key definitions: `pushesOfDay`, `received`, `HeedsLast`, `Stocked`, `GetsDailyPush`.
Key theorems: `received_room`, `awaits_step`, `daily_push_iff`.
-/
import Mathlib.Data.List.Nodup
import Mathlib.Data.List.ProdSigma
import Horo.Push.Rooms

namespace Horo
namespace Reception

open Lib Lib.EventSystem Notifications
open Server (Sign TodayPush zodiacs mem_zodiacs times jobForTime sendTodayPushToZodiacName)

/-! ### What is published -/

/-- A push, with the time of its job in seconds and the content that was read. -/
structure Published where
  time : Int
  push : TodayPush
  content : List UInt16
  deriving DecidableEq, Repr

/-- The time of the job of an hour, on a day in UTC. -/
def jobTime (day hour : Int) : Int := 86400 * day + 3600 * hour

section

-- the content under a path of the storage, at a time; none where there is no
-- document, or one without a content
variable (stored : Int → String → Option (List UInt16))

/-- What becomes of a read of a job: without a content the completion throws,
and nothing is sent. -/
def publish (time : Int) (push : TodayPush) : Option Published :=
  (stored time push.path).map (Published.mk time push)

/-- What the jobs of a day publish. -/
def pushesOfDay (day : Int) : List Published :=
  times.flatMap fun hour =>
    (jobForTime (1000 * jobTime day hour) hour).filterMap (publish stored (jobTime day hour))

/-- The push for a sign at an hour. -/
def pushAt (day : Int) (job : Int × Sign) : Option Published :=
  publish stored (jobTime day job.1)
    (sendTodayPushToZodiacName (1000 * jobTime day job.1) job.1 job.2.name)

end

/-- What a device with these interests receives. -/
def received (interests : Finset String) (pushes : List Published) : List Published :=
  pushes.filter fun p => p.push.roomname ∈ interests

variable {stored : Int → String → Option (List UInt16)}

theorem pushesOfDay_eq (day : Int) :
    pushesOfDay stored day = (times ×ˢ zodiacs).filterMap (pushAt stored day) := by
  simp only [pushesOfDay, jobForTime, List.filterMap_map, SProd.sprod, List.product,
    List.filterMap_flatMap]
  rfl

/-- A push goes to the room of its job. -/
theorem roomname_pushAt {day : Int} {job : Int × Sign} {push : Published}
    (h : pushAt stored day job = some push) :
    push.push.roomname = job.2.name ++ String.ofList (intDigits job.1) := by
  obtain ⟨content, -, rfl⟩ := Option.map_eq_some_iff.mp h
  rfl

/-- The name of a room tells the sign and the hour. -/
theorem room_inj {z z' : Sign} {hour hour' : Int}
    (h : z.name ++ String.ofList (intDigits hour) = z'.name ++ String.ofList (intDigits hour')) :
    z = z' ∧ hour = hour' := by
  have hname : ∀ z : Sign, ∀ c ∈ z.name.toList, decide (97 ≤ c.toNat) = true := by
    intro z
    apply List.all_eq_true.mp
    cases z <;> decide
  have hdigits : ∀ hour : Int, (intDigits hour).takeWhile (fun c => decide (97 ≤ c.toNat)) = [] := by
    intro hour
    apply List.takeWhile_eq_nil_iff.mpr
    intro hpos
    rw [decide_eq_true_eq]
    rcases mem_intDigits (List.get_mem (intDigits hour) ⟨0, hpos⟩) with hdash | hdigit
    · rw [hdash]
      decide
    · rw [Char.isDigit, Bool.and_eq_true, decide_eq_true_eq, decide_eq_true_eq] at hdigit
      have hle : ((intDigits hour).get ⟨0, hpos⟩).toNat ≤ 57 := UInt32.le_iff_toNat_le.mp hdigit.2
      omega
  have hletters : ∀ (z : Sign) (hour : Int),
      (z.name ++ String.ofList (intDigits hour)).toList.takeWhile (fun c => decide (97 ≤ c.toNat)) =
        z.name.toList := by
    intro z hour
    rw [String.toList_append, String.toList_ofList, List.takeWhile_append_of_pos (hname z), hdigits,
      List.append_nil]
  have hlist : z.name.toList = z'.name.toList := by
    rw [← hletters z hour, h, hletters]
  obtain rfl := Sign.name_injective (String.toList_injective hlist)
  have htail := congrArg String.toList h
  simp only [String.toList_append, String.toList_ofList, List.append_cancel_left_eq] at htail
  exact ⟨rfl, intDigits_injective htail⟩

/-- **What comes to a room in a day**: the push of its hour, if there is such an
hour, and a content for it. -/
theorem received_room (z : Sign) (hour day : Int) :
    received {z.name ++ String.ofList (intDigits hour)} (pushesOfDay stored day) =
      if hour ∈ times then (pushAt stored day (hour, z)).toList else [] := by
  have hnodup : (times ×ˢ zodiacs).Nodup := List.Nodup.product (by decide) (by decide)
  have hfilter : (times ×ˢ zodiacs).filterMap (fun job => (pushAt stored day job).filter fun p =>
      decide (p.push.roomname ∈ ({z.name ++ String.ofList (intDigits hour)} : Finset String))) =
      ((times ×ˢ zodiacs).filter (· = (hour, z))).filterMap (pushAt stored day) := by
    rw [List.filterMap_filter]
    apply List.filterMap_congr
    intro job _
    rcases hpush : pushAt stored day job with _ | push
    · rw [ite_self, Option.filter_none]
    · rw [Option.filter_some, roomname_pushAt hpush]
      apply if_congr _ rfl rfl
      rw [decide_eq_true_eq, decide_eq_true_eq, Finset.mem_singleton]
      constructor
      · intro hroom
        obtain ⟨hsign, hhour⟩ := room_inj hroom
        exact Prod.ext hhour hsign
      · intro hjob
        rw [hjob]
  have hmem : (hour, z) ∈ times ×ˢ zodiacs ↔ hour ∈ times := by
    apply List.mem_product.trans
    exact and_iff_left (mem_zodiacs z)
  rw [received, pushesOfDay_eq, List.filter_filterMap, hfilter, List.filter_eq, hnodup.count,
    if_congr hmem rfl rfl]
  split
  · rw [List.replicate_one, List.filterMap_cons]
    rcases pushAt stored day (hour, z) with _ | push
    · rfl
    · rfl
  · rfl

/-! ### What the device is subscribed to -/

/-- The step does not spoil the last command: a launch comes when the interests
are those of the last command that was carried out, and what the SDK does heeds
the last command. -/
def HeedsLast (s : State) : Event → Prop
  | .launch => ∀ q ∈ (restart s).lastGiven, s.wrapper.interests = q.interests
  | .wrapper e => ∀ q ∈ s.lastGiven, Push.Heeds q s.wrapper e
  | _ => True

instance (s : State) : ∀ e, Decidable (HeedsLast s e)
  | .launch => Option.decidableForallMem _
  | .wrapper _ => Option.decidableForallMem _
  | .zodiacChanged _ | .setPushTime _ | .setNotificationsDisabled _ | .timeZoneChanged _
  | .didRegisterForRemoteNotifications _ | .didFailToRegisterForRemoteNotifications
  | .didEnterBackground => .isTrue trivial

/-- The device has the interests of the last command, or is going to have them. -/
def Awaits (s : State) : Prop := ∀ q, s.lastGiven = some q → Push.Converging q s.wrapper

/-- A wrapper that was just made has what it is going to have. -/
theorem converging_launched {q : Push.Request} {interests : Finset String} (h : interests = q.interests) :
    Push.Converging q (Push.launched interests) := by
  subst h
  exact ⟨.inr (Finset.Subset.refl _), .inr (Finset.Subset.refl _)⟩

/-- A send gives the command of the settings, or leaves the last one. -/
theorem awaits_send {s : State} (hsound : Sound s) (hs : s.app.settings = true) (h : Awaits s) :
    ∃ t, sendSettingsIfNeeded s = some t ∧ Awaits t := by
  obtain ⟨p, hp, -⟩ := exists_pushSettings hsound hs
  refine ⟨_, sendSettingsIfNeeded_eq hp, ?_⟩
  by_cases hsuppressed : s.Suppressed
  · rw [if_pos hsuppressed]
    exact h
  · rw [if_neg hsuppressed]
    intro q hq
    obtain rfl : p.request s.secondsFromGMT = q := Option.some.inj hq
    exact Push.converging_request _ s.wrapper

/-- What the wrapper does leaves the last command. -/
theorem lastGiven_wrapper (s : State) (e : Push.Event) :
    (Notifications.step s (.wrapper e)).lastGiven = s.lastGiven := by
  cases h : carriedOutBy e with
  | none => simp only [State.lastGiven, Notifications.step, h]
  | some request => simp only [State.lastGiven, Notifications.step, h, head?_carryOut]

/-- **The subscription goes after the last command**, whatever the event. -/
theorem awaits_step {s : State} (hsound : Sound s) {e : Event} (ha : admits s e) (hok : HeedsLast s e)
    (h : Awaits s) : Awaits (Notifications.step s e) := by
  have hsend : ∀ s₁, beforeSend e s = some s₁ → Awaits s₁ →
      Awaits (((beforeSend e s).bind sendSettingsIfNeeded).getD s) := by
    intro s₁ he h₁
    obtain ⟨hsound₁, hs₁⟩ := sound_send hsound ha he
    obtain ⟨t, ht, hawaits⟩ := awaits_send hsound₁ hs₁ h₁
    rw [he, Option.bind_some, ht, Option.getD_some]
    exact hawaits
  cases e with
  | launch => exact fun q hq => converging_launched (hok q hq)
  | zodiacChanged => exact h
  | setPushTime => exact h
  | setNotificationsDisabled => exact h
  | timeZoneChanged => exact h
  | didRegisterForRemoteNotifications deviceToken =>
    exact hsend _ rfl fun q hq => (Push.converging_registered deviceToken).mpr (h q hq)
  | didFailToRegisterForRemoteNotifications => exact hsend _ rfl h
  | didEnterBackground => exact hsend _ rfl h
  | wrapper e =>
    intro q hq
    have hlast : s.lastGiven = some q := lastGiven_wrapper s e ▸ hq
    have hrequest : e.isRequest = false := by
      cases e with
      | request => cases ha.2
      | _ => rfl
    exact (Push.converging_step ha.1 hrequest).mpr ⟨h q hlast, hok q hlast⟩

theorem sound_awaits_of_reach {s : State} (h : installation.Reach HeedsLast s) : Sound s ∧ Awaits s := by
  apply h.inv
  · intro s₀ h₀
    obtain ⟨secondsFromGMT, rfl⟩ := h₀
    exact ⟨sound_initial secondsFromGMT, fun q hq => by cases hq⟩
  · intro u e hu ha hok
    exact ⟨sound_step hu.1 ha, awaits_step hu.1 ha hok hu.2⟩

/-! ### What the device receives -/

/-- Nothing waits for the registration, and nothing is outstanding. -/
def Settled (s : State) : Prop := s.wrapper.wrapper.needsSubscribe = false ∧ s.wrapper.Quiescent

instance (s : State) : Decidable (Settled s) := inferInstanceAs (Decidable (_ ∧ _))

/-- The last command is the one that the settings ask for. -/
def Asked (s : State) : Prop :=
  ∃ p, s.pushSettings = some p ∧ s.lastGiven = some (p.request s.secondsFromGMT)

/-- A device that is settled and has been asked for its settings has their interests. -/
theorem interests_eq {s : State} (hs : installation.Reach HeedsLast s) (hsettled : Settled s)
    (hasked : Asked s) {p : PushSettings} (hp : s.pushSettings = some p) :
    s.wrapper.interests = (p.request s.secondsFromGMT).interests := by
  obtain ⟨p', hp', hlast⟩ := hasked
  obtain rfl : p' = p := Option.some.inj (hp'.symm.trans hp)
  exact (Push.converging_of_quiescent hsettled.1 hsettled.2).mp ((sound_awaits_of_reach hs).2 _ hlast)

/-- What comes in a day to a device with these settings. -/
theorem received_eq {s : State} (hs : installation.Reach HeedsLast s) (hsettled : Settled s)
    (hasked : Asked s) {p : PushSettings} (hp : s.pushSettings = some p) {z : Sign}
    (hz : p.type.name.toLower = z.name) (day : Int) :
    received s.wrapper.interests (pushesOfDay stored day) =
      if p.disabled = false ∧ roomTime p.time s.secondsFromGMT ∈ times then
        (pushAt stored day (roomTime p.time s.secondsFromGMT, z)).toList
      else [] := by
  rw [interests_eq hs hsettled hasked hp, PushSettings.request, hz]
  cases hdisabled : p.disabled with
  | true => simp [Push.Request.interests, received]
  | false =>
    simp only [Bool.false_eq_true, if_false, true_and, Push.Request.interests, getRoomName]
    exact received_room z _ day

section

variable (stored)

/-- At this hour of every day in UTC the storage has a content for the sign and the day. -/
def Stocked (z : Sign) (hour : Int) : Prop :=
  ∀ day, (stored (jobTime day hour)
    (Server.dayHoroscopePath (1000 * jobTime day hour) z.name)).isSome = true

/-- Every day one push comes, when the device shows the push time: it is made of
the document for the sign and the date that the device shows. -/
def GetsDailyPush (s : State) (z : Sign) (pushTime : Int32) : Prop :=
  ∀ day, ∃ push, received s.wrapper.interests (pushesOfDay stored day) = [push] ∧
    push.push.path =
      Server.storagePath z .today (Server.dateToDateString (1000 * s.secondsFromGMT) (1000 * push.time)) ∧
    stored push.time push.push.path = some push.content ∧
    Rooms.ClockReads (s.secondsFromGMT / 3600) push.time pushTime.toInt 0

end

/-- The clock of a device at a full second. -/
theorem clockReads_int {secondsFromGMT t hour minute : Int} :
    Rooms.ClockReads (secondsFromGMT / 3600) t hour minute ↔
      (t + secondsFromGMT) / 60 % 1440 = 60 * hour + minute := by
  have hseconds : ((t : ℚ) + 3600 * (secondsFromGMT / 3600)) / 60 =
      ((t + secondsFromGMT : ℤ) : ℚ) / 60 := by
    push_cast
    ring
  have hfloor : ⌊((t + secondsFromGMT : ℤ) : ℚ) / 60⌋ = (t + secondsFromGMT) / 60 := by
    exact_mod_cast Rat.floor_intCast_div_natCast (t + secondsFromGMT) 60
  rw [Rooms.ClockReads, hseconds, hfloor]

/-- When the hour of the room is shown as the push time, the device shows the
date in UTC. -/
theorem day_eq_of_clock {pushTime : Int32} {secondsFromGMT day : Int}
    (hclock : Rooms.ClockReads (secondsFromGMT / 3600)
      (jobTime day (roomTime pushTime secondsFromGMT) : Int) pushTime.toInt 0) :
    (jobTime day (roomTime pushTime secondsFromGMT) + secondsFromGMT) / 86400 = day := by
  rw [clockReads_int] at hclock
  unfold jobTime roomTime at hclock ⊢
  by_cases hsign : 0 ≤ pushTime.toInt * 3600 - secondsFromGMT
  · rw [Int.tdiv_eq_ediv_of_nonneg hsign] at hclock ⊢
    omega
  · have hneg : (pushTime.toInt * 3600 - secondsFromGMT).tdiv 3600 =
        -((secondsFromGMT - pushTime.toInt * 3600) / 3600) := by
      rw [← neg_sub, Int.neg_tdiv, Int.tdiv_eq_ediv_of_nonneg (by omega)]
    rw [hneg] at hclock ⊢
    omega

/-- Then the job reads the document of the date that the device shows. -/
theorem path_of_clock {pushTime : Int32} {secondsFromGMT day : Int}
    (hmem : roomTime pushTime secondsFromGMT ∈ times)
    (hclock : Rooms.ClockReads (secondsFromGMT / 3600)
      (jobTime day (roomTime pushTime secondsFromGMT) : Int) pushTime.toInt 0) (z : Sign) :
    Server.dayHoroscopePath (1000 * jobTime day (roomTime pushTime secondsFromGMT)) z.name =
      Server.storagePath z .today (Server.dateToDateString (1000 * secondsFromGMT)
        (1000 * jobTime day (roomTime pushTime secondsFromGMT))) := by
  have hday := day_eq_of_clock hclock
  rw [Server.dayHoroscopePath_eq]
  apply congrArg (Server.storagePath z .today)
  apply Server.dateToDateString_inj.mpr
  unfold EcmaDate.localDay EcmaDate.msPerDay
  rw [Rooms.mem_times] at hmem
  unfold jobTime at hday ⊢
  omega

/-- The hour of the room is shown as the push time exactly if the offset meets it. -/
theorem hour_shows_iff {pushTime : Int32} (h0 : 0 ≤ pushTime.toInt) (h23 : pushTime.toInt ≤ 23)
    (secondsFromGMT : Int) :
    (roomTime pushTime secondsFromGMT ∈ times ∧ ∀ t, Rooms.JobFires (roomTime pushTime secondsFromGMT) t →
        Rooms.ClockReads (secondsFromGMT / 3600) t pushTime.toInt 0) ↔
      Rooms.Meets pushTime (secondsFromGMT / 3600) := by
  have hmod : 60 * pushTime.toInt + 0 = 60 * pushTime.toInt % 1440 := by omega
  rw [Rooms.roomTime_eq, Rooms.mem_times, Rooms.clockReads_iff, hmod]
  generalize (secondsFromGMT / 3600 : ℚ) = offset
  unfold Rooms.Meets Rooms.roomTime
  by_cases hsign : (0 : ℚ) ≤ pushTime.toInt - offset
  · have hahead : ¬ ((pushTime.toInt : ℚ) < offset ∧ offset < pushTime.toInt + 1 / 60) :=
      fun h => by linarith [h.1]
    rw [PredictionScreen.truncate_of_nonneg hsign, Rooms.floor_shows_iff hsign, or_iff_left hahead]
  · have hbehind : ¬ (offset.den = 1 ∧ (0 : ℚ) ≤ pushTime.toInt - offset ∧ pushTime.toInt - offset ≤ 23) :=
      fun h => hsign h.2.1
    rw [Rooms.truncate_of_neg (not_le.mp hsign), neg_sub, Rooms.ceil_shows_iff (not_le.mp hsign),
      or_iff_right hbehind]

/-- **The push of the day.** After any history in which no step spoils the last
command, a device that is settled and was asked for its settings gets its push
every day if and only if notifications are on, the offset meets the push time
and the storage has a content at that hour: otherwise none comes on some day,
or it comes at another time. -/
theorem daily_push_iff {s : State} (hs : installation.Reach HeedsLast s) (hsettled : Settled s)
    (hasked : Asked s) {p : PushSettings} (hp : s.pushSettings = some p) {z : Sign}
    (hz : p.type.name.toLower = z.name) (h0 : 0 ≤ p.time.toInt) (h23 : p.time.toInt ≤ 23) :
    GetsDailyPush stored s z p.time ↔
      p.disabled = false ∧ Rooms.Meets p.time (s.secondsFromGMT / 3600) ∧
        Stocked stored z (roomTime p.time s.secondsFromGMT) := by
  have hreceived : ∀ day, received s.wrapper.interests (pushesOfDay stored day) = _ :=
    received_eq hs hsettled hasked hp hz
  rw [← hour_shows_iff h0 h23]
  constructor
  · intro h
    have hcomes : p.disabled = false ∧ roomTime p.time s.secondsFromGMT ∈ times := by
      obtain ⟨push, heq, -⟩ := h 0
      rw [hreceived] at heq
      by_contra hnot
      rw [if_neg hnot] at heq
      cases heq
    -- the push of each day is that of the job
    have hjob : ∀ day, ∃ push, pushAt stored day (roomTime p.time s.secondsFromGMT, z) = some push ∧
        Rooms.ClockReads (s.secondsFromGMT / 3600) push.time p.time.toInt 0 := by
      intro day
      obtain ⟨push, heq, -, -, hclock⟩ := h day
      rw [hreceived, if_pos hcomes] at heq
      exact ⟨push, Option.toList_eq_singleton_iff.mp heq, hclock⟩
    refine ⟨hcomes.1, ⟨hcomes.2, ?_⟩, fun day => ?_⟩
    · rintro t ⟨day, rfl⟩
      obtain ⟨push, hpush, hclock⟩ := hjob day
      obtain ⟨content, -, rfl⟩ := Option.map_eq_some_iff.mp hpush
      simp only [jobTime] at hclock
      push_cast at hclock
      exact hclock
    · obtain ⟨push, hpush, -⟩ := hjob day
      obtain ⟨content, hcontent, -⟩ := Option.map_eq_some_iff.mp hpush
      exact Option.isSome_iff_exists.mpr ⟨content, hcontent⟩
  · rintro ⟨henabled, ⟨hmem, hclock⟩, hstocked⟩ day
    have hreads := hclock (jobTime day (roomTime p.time s.secondsFromGMT) : Int)
      ⟨day, by rw [jobTime]; push_cast; rfl⟩
    obtain ⟨content, hcontent⟩ := Option.isSome_iff_exists.mp (hstocked day)
    let push : Published := ⟨jobTime day (roomTime p.time s.secondsFromGMT), sendTodayPushToZodiacName
      (1000 * jobTime day (roomTime p.time s.secondsFromGMT)) (roomTime p.time s.secondsFromGMT) z.name,
      content⟩
    have hpush : pushAt stored day (roomTime p.time s.secondsFromGMT, z) = some push :=
      Option.map_eq_some_iff.mpr ⟨content, hcontent, rfl⟩
    refine ⟨push, ?_, path_of_clock hmem hreads z, hcontent, hreads⟩
    rw [hreceived, if_pos ⟨henabled, hmem⟩, hpush]
    rfl

/-- In UTC+3, in the launch after the one that has subscribed. -/
def morning : State := installation.exec (initial 10800) (delivered ++ [.didEnterBackground])

/-- A storage that has a content for every sign and day. -/
def fullStorage (content : List UInt16) : Int → String → Option (List UInt16) := fun _ _ => some content

/-- The push comes at eight. -/
theorem morning_dailyPush : GetsDailyPush (fullStorage []) morning .leo 8 := by
  have hreach : installation.Reach HeedsLast morning :=
    ⟨initial 10800, ⟨10800, rfl⟩, ReachFrom.exec _ _ (by decide +kernel)⟩
  have hsettings : morning.pushSettings = some ⟨.leo, 8, false⟩ := by decide +kernel
  have hoffset : morning.secondsFromGMT = 10800 := by decide +kernel
  have hmeets : Rooms.Meets 8 (morning.secondsFromGMT / 3600) := by
    rw [hoffset]
    exact .inl ⟨by decide +kernel, by decide +kernel, by decide +kernel⟩
  exact (daily_push_iff hreach (by decide +kernel) ⟨_, hsettings, by decide +kernel⟩ hsettings
    (by decide +kernel) (by decide) (by decide)).mpr ⟨rfl, hmeets, fun _ => rfl⟩

end Reception
end Horo
