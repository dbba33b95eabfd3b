/-
# The rooms of the application and of the pusher

`getRoomName` of `src/ios/NotificationsObjc` takes the offset of the device off
the push time and drops the fraction; `src/server/pusher` publishes at every
hour of the server's clock, which shows UTC, to the rooms of that hour.

* `rooms_agree_iff`: the room is one the pusher publishes to, at the push time
  of the device, exactly when the offset is a whole number of hours and the
  push time in UTC is on the same day; or the device is less than a minute
  further ahead than its push time.
-/
import Horo.PredictionScreen
import Horo.Push.Notifications
import Horo.Server.PushSender

namespace Horo
namespace Rooms

open Lib PredictionScreen

/-! ### The room that is asked for -/

/-- `pushTime() - timezoneOffset()` as an `int`, the offset being in hours. -/
def roomTime (pushTime : Int32) (timezoneOffset : ℚ) : Int := truncate (pushTime.toInt - timezoneOffset)

def getRoomName (zodiacName : String) (pushTime : Int32) (timezoneOffset : ℚ) : String :=
  zodiacName ++ String.ofList (intDigits (roomTime pushTime timezoneOffset))

/-! ### The clocks -/

/-- The job that `scheduleJobAtHour` makes for an hour is run at `t`, in
seconds: its rule has minute 0, and the second is 0 by default. -/
def JobFires (hour : Int) (t : ℚ) : Prop := ∃ day : ℤ, t = 86400 * day + 3600 * hour

/-- The clock of a device shows the time of day. -/
def ClockReads (timezoneOffset t : ℚ) (hour minute : Int) : Prop :=
  ⌊(t + 3600 * timezoneOffset) / 60⌋ % 1440 = 60 * hour + minute

/-- The room is that of one of the hourly jobs, which runs when the device
shows the push time. -/
def RoomsAgree (z : Server.Sign) (pushTime : Int32) (timezoneOffset : ℚ) : Prop :=
  ∃ hour ∈ Server.times,
    (∀ todayDate, (Server.sendTodayPushToZodiacName todayDate hour z.name).roomname =
      getRoomName z.name pushTime timezoneOffset) ∧
    ∀ t, JobFires hour t → ClockReads timezoneOffset t pushTime.toInt 0

/-! ### The rooms that agree -/

theorem mem_times {hour : Int} : hour ∈ Server.times ↔ 0 ≤ hour ∧ hour < 24 := by
  simp only [Server.times, List.mem_map, List.mem_range]
  constructor
  · rintro ⟨n, hn, rfl⟩
    simp only [Int.ofNat_eq_natCast]
    omega
  · rintro ⟨h0, h24⟩
    exact ⟨hour.toNat, by omega, by simp only [Int.ofNat_eq_natCast]; omega⟩

theorem roomname_eq_iff {z : Server.Sign} {hour : Int} {pushTime : Int32} {offset : ℚ} :
    (∀ todayDate, (Server.sendTodayPushToZodiacName todayDate hour z.name).roomname =
      getRoomName z.name pushTime offset) ↔ hour = roomTime pushTime offset := by
  constructor
  · intro h
    have hlist := congrArg String.toList (h 0)
    simp only [Server.sendTodayPushToZodiacName, getRoomName, String.toList_append,
      String.toList_ofList, List.append_cancel_left_eq] at hlist
    exact intDigits_injective hlist
  · rintro rfl _
    rfl

/-- What the device shows at a job does not depend on the day. -/
theorem clockReads_iff {hour : Int} {offset : ℚ} {h m : Int} :
    (∀ t, JobFires hour t → ClockReads offset t h m) ↔
      ⌊60 * (hour + offset)⌋ % 1440 = 60 * h + m := by
  have hday : ∀ day : ℤ, ((86400 * day + 3600 * hour : ℚ) + 3600 * offset) / 60 =
      60 * (hour + offset) + ((1440 * day : ℤ) : ℚ) := by
    intro day
    push_cast
    ring
  constructor
  · intro hall
    have hzero := hall _ ⟨0, rfl⟩
    rw [ClockReads, hday, Int.floor_add_intCast] at hzero
    omega
  · rintro hreads t ⟨day, rfl⟩
    rw [ClockReads, hday, Int.floor_add_intCast]
    omega

theorem truncate_of_neg {x : ℚ} (h : x < 0) : truncate x = -⌊-x⌋ := by
  have hneg : truncate x = -truncate (-x) := by
    simp [truncate, Int.neg_tdiv]
  rw [hneg, truncate_of_nonneg (by linarith)]

theorem truncate_div (m : ℤ) : truncate (m / 3600) = m.tdiv 3600 := by
  have hfloor : ∀ n : ℤ, ⌊(n / 3600 : ℚ)⌋ = n / 3600 := fun n => by
    exact_mod_cast Rat.floor_intCast_div_natCast n 3600
  by_cases h : 0 ≤ m
  · have hnonneg : (0 : ℚ) ≤ m / 3600 := div_nonneg (by exact_mod_cast h) (by norm_num)
    rw [truncate_of_nonneg hnonneg, hfloor, Int.tdiv_eq_ediv_of_nonneg h]
  · have hneg : (m / 3600 : ℚ) < 0 :=
      div_neg_of_neg_of_pos (by exact_mod_cast Int.not_le.mp h) (by norm_num)
    have hceil : -(m / 3600 : ℚ) = ((-m : ℤ) : ℚ) / 3600 := by push_cast; ring
    have htdiv : m.tdiv 3600 = -((-m).tdiv 3600) := by rw [Int.neg_tdiv, neg_neg]
    rw [truncate_of_neg hneg, hceil, hfloor, htdiv, Int.tdiv_eq_ediv_of_nonneg (by omega)]

/-- The room is that of the commands that are sent. -/
theorem roomTime_eq (pushTime : Int32) (secondsFromGMT : Int) :
    Notifications.roomTime pushTime secondsFromGMT = roomTime pushTime (secondsFromGMT / 3600) := by
  have hhours : (pushTime.toInt - secondsFromGMT / 3600 : ℚ) =
      ((pushTime.toInt * 3600 - secondsFromGMT : ℤ) : ℚ) / 3600 := by
    push_cast
    ring
  rw [roomTime, hhours, truncate_div, Notifications.roomTime]

/-! ### The theorem -/

/-- The push time in UTC is a full hour of the same day; or the device is less
than a minute further ahead than its push time. -/
def Meets (pushTime : Int32) (timezoneOffset : ℚ) : Prop :=
  (timezoneOffset.den = 1 ∧ 0 ≤ pushTime.toInt - timezoneOffset ∧
      pushTime.toInt - timezoneOffset ≤ 23) ∨
    (pushTime.toInt < timezoneOffset ∧ timezoneOffset < pushTime.toInt + 1 / 60)

/-- A clock that is not ahead of `h`, and less than an hour behind it, shows
`h` only at `h`. -/
theorem floor_eq_of_le {x : ℚ} {h : ℤ} (hle : x ≤ h) (hlt : h - 1 < x) :
    ⌊60 * x⌋ % 1440 = 60 * h % 1440 ↔ x = h := by
  constructor
  · intro hmod
    have hupper : ⌊60 * x⌋ ≤ 60 * h := by
      have hfloor := Int.floor_le (60 * x)
      have hbound : (⌊60 * x⌋ : ℚ) ≤ ((60 * h : ℤ) : ℚ) := by push_cast; linarith
      exact_mod_cast hbound
    have hlower : 60 * h - 60 ≤ ⌊60 * x⌋ := Int.le_floor.mpr (by push_cast; linarith)
    have hfloor : 60 * h = ⌊60 * x⌋ := by omega
    have hcast : ((60 * h : ℤ) : ℚ) ≤ 60 * x := by rw [hfloor]; exact Int.floor_le _
    push_cast at hcast
    linarith
  · rintro rfl
    have hint : (60 * (h : ℚ)) = ((60 * h : ℤ) : ℚ) := by push_cast; ring
    rw [hint, Int.floor_intCast]

/-- A clock that is ahead of `h` by less than an hour shows `h` for a minute. -/
theorem floor_eq_of_lt {x : ℚ} {h : ℤ} (hlt : h < x) (hlt' : x < h + 1) :
    ⌊60 * x⌋ % 1440 = 60 * h % 1440 ↔ x < h + 1 / 60 := by
  have hlower : 60 * h ≤ ⌊60 * x⌋ := Int.le_floor.mpr (by push_cast; linarith)
  have hupper : ⌊60 * x⌋ < 60 * h + 60 := Int.floor_lt.mpr (by push_cast; linarith)
  have hminute : ⌊60 * x⌋ < 60 * h + 1 ↔ x < h + 1 / 60 := by
    rw [Int.floor_lt]
    push_cast
    constructor <;> intro h' <;> linarith
  rw [← hminute]
  omega

/-- What is to be shown of a room, as an equation of minutes of the day. -/
theorem roomsAgree_iff_minutes (z : Server.Sign) {pushTime : Int32} (h0 : 0 ≤ pushTime.toInt)
    (h23 : pushTime.toInt ≤ 23) (offset : ℚ) :
    RoomsAgree z pushTime offset ↔
      (0 ≤ roomTime pushTime offset ∧ roomTime pushTime offset < 24) ∧
        ⌊60 * (roomTime pushTime offset + offset)⌋ % 1440 = 60 * pushTime.toInt % 1440 := by
  have hmod : 60 * pushTime.toInt % 1440 = 60 * pushTime.toInt + 0 := by omega
  simp only [RoomsAgree, roomname_eq_iff, clockReads_iff, mem_times, hmod]
  constructor
  · rintro ⟨_, hmem, rfl, hreads⟩
    exact ⟨hmem, hreads⟩
  · rintro ⟨hmem, hreads⟩
    exact ⟨_, hmem, rfl, hreads⟩

/-- Where the push time in UTC is not before the day, its fraction is dropped:
the device shows less than an hour too little. -/
theorem floor_shows_iff {h : ℤ} {offset : ℚ} (hsign : (0 : ℚ) ≤ h - offset) :
    (0 ≤ ⌊h - offset⌋ ∧ ⌊h - offset⌋ < 24) ∧
        ⌊60 * (⌊h - offset⌋ + offset)⌋ % 1440 = 60 * h % 1440 ↔
      offset.den = 1 ∧ (0 : ℚ) ≤ h - offset ∧ h - offset ≤ 23 := by
  have hle := Int.floor_le (h - offset)
  have hlt := Int.lt_floor_add_one (h - offset)
  rw [floor_eq_of_le (by linarith) (by linarith)]
  constructor
  · rintro ⟨⟨_, h24⟩, hwhole⟩
    have hoffset : offset = ((h - ⌊h - offset⌋ : ℤ) : ℚ) := by
      push_cast
      linarith
    have h23 : (⌊h - offset⌋ : ℚ) ≤ 23 := by exact_mod_cast Int.lt_add_one_iff.mp h24
    refine ⟨?_, hsign, by linarith⟩
    rw [hoffset, Rat.den_intCast]
  · rintro ⟨hden, _, hle23⟩
    have hwhole : h - offset = ((h - offset.num : ℤ) : ℚ) := by
      push_cast
      rw [Rat.coe_int_num_of_den_eq_one hden]
    rw [hwhole] at hsign hle23
    have hnonneg : 0 ≤ h - offset.num := by exact_mod_cast hsign
    have hle23' : h - offset.num ≤ 23 := by exact_mod_cast hle23
    rw [hwhole, Int.floor_intCast]
    refine ⟨by omega, ?_⟩
    rw [← hwhole]
    ring

/-- Where it is before the day, only the room 0 is left. -/
theorem ceil_shows_iff {h : ℤ} {offset : ℚ} (hsign : h - offset < 0) :
    (0 ≤ -⌊offset - h⌋ ∧ -⌊offset - h⌋ < 24) ∧
        ⌊60 * ((-⌊offset - h⌋ : ℤ) + offset)⌋ % 1440 = 60 * h % 1440 ↔
      h < offset ∧ offset < h + 1 / 60 := by
  have hfloor : ∀ hlt : offset < h + 1, ⌊offset - h⌋ = 0 := fun hlt =>
    Int.floor_eq_zero_iff.mpr ⟨by linarith, by linarith⟩
  have hzero : ((-0 : ℤ) + offset : ℚ) = offset := by push_cast; ring
  constructor
  · rintro ⟨⟨hnonneg, _⟩, hreads⟩
    have hupper : offset < h + 1 := by
      have hlt := Int.lt_floor_add_one (offset - h)
      have hle : (⌊offset - h⌋ : ℚ) ≤ 0 := by
        exact_mod_cast (by omega : ⌊offset - h⌋ ≤ 0)
      linarith
    rw [hfloor hupper, hzero, floor_eq_of_lt (by linarith) hupper] at hreads
    exact ⟨by linarith, hreads⟩
  · rintro ⟨hlt, hlt'⟩
    have hupper : offset < h + 1 := by linarith
    rw [hfloor hupper, hzero, floor_eq_of_lt hlt hupper]
    exact ⟨by omega, hlt'⟩

/-- **When the application and the pusher agree on the room.** For a push time
of the day, the room the application asks for is one the pusher publishes to
when the device shows the push time if and only if the offset meets it. -/
theorem rooms_agree_iff (z : Server.Sign) {pushTime : Int32} (h0 : 0 ≤ pushTime.toInt)
    (h23 : pushTime.toInt ≤ 23) (timezoneOffset : ℚ) :
    RoomsAgree z pushTime timezoneOffset ↔ Meets pushTime timezoneOffset := by
  rw [roomsAgree_iff_minutes z h0 h23]
  unfold Meets roomTime
  by_cases hsign : (0 : ℚ) ≤ pushTime.toInt - timezoneOffset
  · have hahead : ¬ ((pushTime.toInt : ℚ) < timezoneOffset ∧
        timezoneOffset < pushTime.toInt + 1 / 60) := fun h => by linarith [h.1]
    rw [truncate_of_nonneg hsign, floor_shows_iff hsign, or_iff_left hahead]
  · have hbehind : ¬ (timezoneOffset.den = 1 ∧ (0 : ℚ) ≤ pushTime.toInt - timezoneOffset ∧
        pushTime.toInt - timezoneOffset ≤ 23) := fun h => hsign h.2.1
    rw [truncate_of_neg (not_le.mp hsign), neg_sub, ceil_shows_iff (not_le.mp hsign),
      or_iff_right hbehind]

/-- In Moscow at eleven. -/
theorem moscow_agrees : RoomsAgree .leo 11 3 :=
  (rooms_agree_iff .leo (by decide) (by decide) 3).mpr
    (.inl ⟨by decide, by decide +kernel, by decide +kernel⟩)

/-- At two in Moscow the room has a negative hour. -/
theorem moscow_negative_room :
    getRoomName "leo" 2 3 = "leo-1" ∧ ¬ RoomsAgree .leo 2 3 := by
  have hroom : roomTime 2 3 = -1 := by decide +kernel
  refine ⟨by decide +kernel, ?_⟩
  rintro ⟨hour, hmem, hname, _⟩
  rw [roomname_eq_iff, hroom] at hname
  rw [hname] at hmem
  exact absurd hmem (by decide)

end Rooms
end Horo
