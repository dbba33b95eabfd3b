/-
# The tabs of the prediction screen

`src/models/predictionscreenmodel`: `loadData` computes the times of the tabs
from the server time, `handleFetchedHoroscopes` looks the fetched horoscopes
up by them. The device is `o` seconds ahead of UTC, all year.

* `shows_local_days_iff`: the tabs show the local days of an instant exactly
  when adding the offset to the time twice does not change the day.
-/
import Mathlib.Data.Rat.Floor
import Horo.HoroscopesParser

namespace Horo
namespace PredictionScreen

open Lib Calendar HoroscopesParser

/-! ### The model -/

/-- What the screen uses of a horoscope. `date_` is unsigned; it is read back
as the number that was stored. -/
structure HoroscopeDTO where
  content : String
  date : Int
  deriving DecidableEq, Repr

/-- The arguments of `handleFetchedHoroscopes`, and what stands in their place
among the tabs. -/
structure Horoscopes where
  yesterday : Option HoroscopeDTO
  today : Option HoroscopeDTO
  tomorrow : Option HoroscopeDTO
  week : Option HoroscopeDTO
  month : Option HoroscopeDTO
  year : Option HoroscopeDTO
  deriving DecidableEq, Repr

structure Timestamps where
  yesterday : Int
  today : Int
  tomorrow : Int
  week : Int
  month : Int
  deriving DecidableEq, Repr

/-- A double that becomes an integer. -/
def truncate (ti : ℚ) : Int := ti.num.tdiv ti.den

/-- `Platform::timezoneOffset`, in hours. -/
def timezoneOffset (o : Int) : ℚ := o / 3600

/-- Through the decimal text of the number. -/
def timestempToTime (timestemp : Int) : Int := timestemp

def zerous (time : Tm) : Tm :=
  { time with sec := 0, min := 0, hour := 0, wday := 0, yday := 0, isdst := 0, gmtoff := 0 }

def tmToTimestamp (o : Int) (time : Tm) : Int := (mktime o time).1

/-- The `while` of `loadData`, with fuel. -/
def weekStart (o : Int) : ℕ → Tm → Option Tm
  | 0, _ => none
  | fuel + 1, time =>
    if time.wday ≠ 1 then weekStart o fuel (mktime o { time with mday := time.mday - 1 }).2
    else some time

/-- What `loadData` computes when the server time arrives. -/
def timestamps (o : Int) (ti : ℚ) : Option Timestamps := do
  let offset := timezoneOffset o * 60 * 60
  let ti := ti + offset
  let time := localtime o (timestempToTime (truncate ti))
  let todayTime := (mktime o (zerous time)).2
  let yesterdayTime := (mktime o (zerous { time with mday := time.mday - 1 })).2
  let tomorrowTime := (mktime o (zerous { time with mday := time.mday + 1 })).2
  let weekStartTime := (mktime o (zerous (← weekStart o 7 time))).2
  let monthStartTime := { zerous time with mday := 1 }
  return { yesterday := tmToTimestamp o yesterdayTime
           today := tmToTimestamp o todayTime
           tomorrow := tmToTimestamp o tomorrowTime
           week := tmToTimestamp o weekStartTime
           month := tmToTimestamp o monthStartTime }

def hasHoroscopeWithDate (o date : Int) (horoscopes : List (Option HoroscopeDTO)) :
    Option HoroscopeDTO :=
  (horoscopes.filterMap id).find? fun horoscope =>
    let time := (mktime o (zerous (localtime o (timestempToTime horoscope.date)))).2
    date == tmToTimestamp o time

/-- The horoscopes of the tabs. -/
def newHoroscopes (o : Int) (times : Timestamps) (fetched : Horoscopes) : Horoscopes :=
  let daysHoroscopes := [fetched.yesterday, fetched.today, fetched.tomorrow]
  { yesterday := hasHoroscopeWithDate o times.yesterday daysHoroscopes
    today := hasHoroscopeWithDate o times.today daysHoroscopes
    tomorrow := hasHoroscopeWithDate o times.tomorrow daysHoroscopes
    week := hasHoroscopeWithDate o times.week [fetched.week]
    month := hasHoroscopeWithDate o times.month [fetched.month]
    year := fetched.year }

/-- The horoscopes that have a text, under their titles. -/
def shown (allHoroscopes : List (String × Option HoroscopeDTO)) : List (String × HoroscopeDTO) :=
  allHoroscopes.filterMap fun (title, h) => do
    let h ← h
    if h.content = "" then none else some (title, h)

/-- The titles of the tabs, and the horoscopes whose texts are the predictions. -/
def handleFetchedHoroscopes (o : Int) (times : Timestamps) (fetched : Horoscopes) :
    List (String × HoroscopeDTO) :=
  let new := newHoroscopes o times fetched
  shown [("yesterday", new.yesterday), ("today", new.today), ("tomorrow", new.tomorrow),
    ("week", new.week), ("month", new.month), ("year", new.year)]

/-! ### What the tabs should show -/

/-- The day of an instant on the clock of the device. -/
def localDay (o : Int) (t : ℚ) : Int := ⌊t + o⌋ / 86400

def localDate (o : Int) (t : ℚ) : Date := ofDayNumber (localDay o t)

/-- The date of the horoscope is that of the date string of `d`. -/
def Dated (h : HoroscopeDTO) (d : Date) : Prop := dateStringToDate (dateString d) = some h.date

/-- The tab shows a horoscope of the day, and shows one if one was fetched. -/
structure Shows (d : Date) (fetched : List (Option HoroscopeDTO)) (tab : Option HoroscopeDTO) :
    Prop where
  dated : ∀ h, tab = some h → Dated h d
  complete : ∀ h, some h ∈ fetched → Dated h d → tab ≠ none

/-- Every fetched horoscope has a date string. -/
def AllDated (fetched : Horoscopes) : Prop :=
  ∀ h, some h ∈ [fetched.yesterday, fetched.today, fetched.tomorrow, fetched.week, fetched.month] →
    ∃ d, Dated h d

/-- Every fetched horoscope has a text. -/
def AllWritten (fetched : Horoscopes) : Prop :=
  ∀ h, some h ∈ [fetched.yesterday, fetched.today, fetched.tomorrow, fetched.week, fetched.month] →
    h.content ≠ ""

structure ShowsLocalDays (o : Int) (t : ℚ) (fetched : Horoscopes)
    (tabs : List (String × HoroscopeDTO)) : Prop where
  yesterday : Shows (ofDayNumber (localDay o t - 1))
    [fetched.yesterday, fetched.today, fetched.tomorrow] (tabs.lookup "yesterday")
  today : Shows (localDate o t) [fetched.yesterday, fetched.today, fetched.tomorrow]
    (tabs.lookup "today")
  tomorrow : Shows (ofDayNumber (localDay o t + 1))
    [fetched.yesterday, fetched.today, fetched.tomorrow] (tabs.lookup "tomorrow")
  week : Shows (ofDayNumber (monday (localDay o t))) [fetched.week] (tabs.lookup "week")
  month : Shows (localDate o t).firstOfMonth [fetched.month] (tabs.lookup "month")

/-- Adding the offset twice does not change the day: what is left of the
offset after whole days fits into what is left of the local day, and the whole
days change neither the day of the week nor the day of the month. -/
structure Unshifted (o : Int) (t : ℚ) : Prop where
  day : truncate (t + o) / 86400 = localDay o t
  time : truncate (t + o) % 86400 + o % 86400 < 86400
  week : weekday (localDay o t + o / 86400) = weekday (localDay o t)
  month : (ofDayNumber (localDay o t + o / 86400)).day = (localDate o t).day

/-! ### The times of the tabs -/

section

variable {o : Int}

/-- The midnight of a day, as a time. -/
def midnight (o k : Int) : Int := 86400 * k - o

theorem timegm_zerous (time : Tm) :
    timegm (zerous time) = 86400 * dayNumberOf (time.year + 1900) time.mon time.mday := by
  simp [timegm, zerous]

theorem timegm_zerous_localtime (time mday : Int) :
    timegm (zerous { localtime o time with mday := mday }) =
      86400 * ((time + o) / 86400 + (mday - (localtime o time).mday)) := by
  rw [timegm_zerous]
  simp only
  rw [dayNumberOf_mday _ _ (localtime o time).mday, dayNumberOf_localtime]

/-- `mktime` on what `mktime` has normalized. -/
theorem tmToTimestamp_mktime (time : Tm) :
    tmToTimestamp o (mktime o time).2 = timegm time - o := by
  unfold tmToTimestamp mktime
  simp only [timegm_localtime, Int.add_sub_cancel]

/-- The loop ends on the Monday of the week. -/
theorem weekStart_eq : ∀ (fuel : ℕ) (time : Int), ((time + o) / 86400 + 3) % 7 < fuel →
    weekStart o fuel (localtime o time) =
      some (localtime o (time - 86400 * (((time + o) / 86400 + 3) % 7)))
  | 0, time, h => by omega
  | fuel + 1, time, h => by
    have hwday : (localtime o time).wday = ((time + o) / 86400 + 4) % 7 := rfl
    have hback : (time - 86400 + o) / 86400 = (time + o) / 86400 - 1 := by omega
    unfold weekStart
    by_cases hmonday : (localtime o time).wday = 1
    · have hzero : ((time + o) / 86400 + 3) % 7 = 0 := by
        rw [hwday] at hmonday
        omega
      rw [if_neg (not_not.mpr hmonday), hzero]
      simp
    · -- the day before
      have hbefore : (mktime o { localtime o time with mday := (localtime o time).mday - 1 }).2 =
          localtime o (time - 86400) := by
        have htime : time + o + 86400 * ((localtime o time).mday - 1 - (localtime o time).mday) - o =
            time - 86400 := by omega
        unfold mktime
        rw [timegm_mday, timegm_localtime, htime]
      have hpos : ((time - 86400 + o) / 86400 + 3) % 7 = ((time + o) / 86400 + 3) % 7 - 1 := by
        rw [hwday] at hmonday
        omega
      have ih := weekStart_eq fuel (time - 86400) (by omega)
      have hmondays : time - 86400 - 86400 * (((time + o) / 86400 + 3) % 7 - 1) =
          time - 86400 * (((time + o) / 86400 + 3) % 7) := by omega
      rw [if_pos hmonday, hbefore, ih, hpos, hmondays]

theorem timestamps_eq (o : Int) (t : ℚ) :
    timestamps o t = some (
      let k := (truncate (t + o) + o) / 86400
      { yesterday := midnight o (k - 1), today := midnight o k, tomorrow := midnight o (k + 1)
        week := midnight o (monday k)
        month := midnight o (ofDayNumber k).firstOfMonth.dayNumber }) := by
  have hoffset : t + timezoneOffset o * 60 * 60 = t + o := by
    unfold timezoneOffset
    ring
  have hmidnight : ∀ time, timegm (zerous (localtime o time)) = 86400 * ((time + o) / 86400) :=
    fun time => by rw [timegm_zerous, dayNumberOf_localtime]
  have hlast : ∀ time : Int, ((time + o) / 86400 + 3) % 7 < (7 : ℕ) := fun time => by omega
  unfold timestamps
  simp only [hoffset, timestempToTime, weekStart_eq 7 _ (hlast _), Option.bind_eq_bind,
    Option.bind_some, tmToTimestamp_mktime, timegm_zerous_localtime]
  refine congrArg some ?_
  rw [Timestamps.mk.injEq]
  refine ⟨?_, ?_, ?_, ?_, ?_⟩
  · unfold midnight
    omega
  · rw [hmidnight, midnight]
  · unfold midnight
    omega
  · rw [hmidnight, midnight, monday]
    omega
  · have hday : (localtime o (truncate (t + o))).mday =
        (ofDayNumber ((truncate (t + o) + o) / 86400)).day := rfl
    rw [dayNumber_firstOfMonth, dayNumber_ofDayNumber, ← hday]
    show timegm (zerous { localtime o (truncate (t + o)) with mday := 1 }) - o = _
    rw [timegm_zerous_localtime]
    unfold midnight
    omega

theorem find_eq (date : Int) (horoscopes : List (Option HoroscopeDTO)) :
    hasHoroscopeWithDate o date horoscopes =
      (horoscopes.filterMap id).find? fun h => date == midnight o ((h.date + o) / 86400) := by
  have hstamp : ∀ time : Int, timegm (zerous (localtime o time)) = 86400 * ((time + o) / 86400) :=
    fun time => by rw [timegm_zerous, dayNumberOf_localtime]
  unfold hasHoroscopeWithDate
  simp only [tmToTimestamp_mktime, timestempToTime, hstamp, midnight]

/-! ### The tabs -/

theorem mem_of_hasHoroscopeWithDate {date : Int} {horoscopes : List (Option HoroscopeDTO)}
    {h : HoroscopeDTO} (hfound : hasHoroscopeWithDate o date horoscopes = some h) :
    some h ∈ horoscopes := by
  simpa using List.mem_of_find?_eq_some hfound

/-- A tab is missing if there is no horoscope for it. -/
theorem lookup_shown {title : String} {all : List (String × Option HoroscopeDTO)}
    (htitles : (all.map Prod.fst).Nodup) (htext : ∀ h, (title, some h) ∈ all → h.content ≠ "") :
    (shown all).lookup title = (all.lookup title).join := by
  induction all with
  | nil => rfl
  | cons tab all ih =>
    obtain ⟨title', h⟩ := tab
    rw [List.map_cons, List.nodup_cons] at htitles
    have ih := ih htitles.2 fun h hh => htext h (List.mem_cons_of_mem _ hh)
    by_cases htitle : title = title'
    · subst htitle
      rw [List.lookup_cons_self, Option.join_some]
      rcases h with _ | h
      · -- no other tab has this title
        have hnone : all.lookup title = none := by
          rw [List.lookup_eq_none_iff]
          intro p hp
          rw [bne_iff_ne]
          rintro rfl
          exact htitles.1 (show p.1 ∈ all.map Prod.fst from List.mem_map_of_mem hp)
        rw [hnone] at ih
        exact ih
      · have hne : h.content ≠ "" := htext h List.mem_cons_self
        simp [shown, hne]
    · have hskip : (shown ((title', h) :: all)).lookup title = (shown all).lookup title := by
        rcases h with _ | h
        · rfl
        · by_cases hempty : h.content = ""
          · simp [shown, hempty]
          · simp [shown, hempty, List.lookup_cons, beq_false_of_ne htitle]
      rw [hskip, ih, List.lookup_cons, beq_false_of_ne htitle]

/-- What is under the titles, if the horoscopes have texts. -/
theorem showsLocalDays_iff {t : ℚ} {fetched : Horoscopes} {times : Timestamps}
    (hwritten : AllWritten fetched) :
    ShowsLocalDays o t fetched (handleFetchedHoroscopes o times fetched) ↔
      Shows (ofDayNumber (localDay o t - 1)) [fetched.yesterday, fetched.today, fetched.tomorrow]
        (newHoroscopes o times fetched).yesterday ∧
      Shows (localDate o t) [fetched.yesterday, fetched.today, fetched.tomorrow]
        (newHoroscopes o times fetched).today ∧
      Shows (ofDayNumber (localDay o t + 1)) [fetched.yesterday, fetched.today, fetched.tomorrow]
        (newHoroscopes o times fetched).tomorrow ∧
      Shows (ofDayNumber (monday (localDay o t))) [fetched.week] (newHoroscopes o times fetched).week ∧
      Shows (localDate o t).firstOfMonth [fetched.month] (newHoroscopes o times fetched).month := by
  let new := newHoroscopes o times fetched
  let all := [("yesterday", new.yesterday), ("today", new.today), ("tomorrow", new.tomorrow),
    ("week", new.week), ("month", new.month), ("year", new.year)]
  have htext : ∀ title h, title ≠ "year" → (title, some h) ∈ all → h.content ≠ "" := by
    intro title h hyear hh
    simp only [all, List.mem_cons, Prod.mk.injEq, List.not_mem_nil, or_false] at hh
    refine hwritten h ?_
    rcases hh with ⟨-, hh⟩ | ⟨-, hh⟩ | ⟨-, hh⟩ | ⟨-, hh⟩ | ⟨-, hh⟩ | ⟨htitle, -⟩
    · exact List.mem_append_left _ (mem_of_hasHoroscopeWithDate hh.symm)
    · exact List.mem_append_left _ (mem_of_hasHoroscopeWithDate hh.symm)
    · exact List.mem_append_left _ (mem_of_hasHoroscopeWithDate hh.symm)
    · exact List.mem_append_right [fetched.yesterday, fetched.today, fetched.tomorrow]
        (List.mem_append_left _ (mem_of_hasHoroscopeWithDate hh.symm))
    · exact List.mem_append_right [fetched.yesterday, fetched.today, fetched.tomorrow, fetched.week]
        (mem_of_hasHoroscopeWithDate hh.symm)
    · exact absurd htitle hyear
  have hlookup : ∀ title, title ≠ "year" →
      (handleFetchedHoroscopes o times fetched).lookup title = (all.lookup title).join :=
    fun title hyear => lookup_shown
      (show ["yesterday", "today", "tomorrow", "week", "month", "year"].Nodup by decide)
      fun h hh => htext title h hyear hh
  have hyesterday : (handleFetchedHoroscopes o times fetched).lookup "yesterday" = new.yesterday :=
    hlookup "yesterday" (by decide)
  have htoday : (handleFetchedHoroscopes o times fetched).lookup "today" = new.today :=
    hlookup "today" (by decide)
  have htomorrow : (handleFetchedHoroscopes o times fetched).lookup "tomorrow" = new.tomorrow :=
    hlookup "tomorrow" (by decide)
  have hweek : (handleFetchedHoroscopes o times fetched).lookup "week" = new.week :=
    hlookup "week" (by decide)
  have hmonth : (handleFetchedHoroscopes o times fetched).lookup "month" = new.month :=
    hlookup "month" (by decide)
  constructor
  · intro h
    exact ⟨hyesterday ▸ h.yesterday, htoday ▸ h.today, htomorrow ▸ h.tomorrow, hweek ▸ h.week,
      hmonth ▸ h.month⟩
  · rintro ⟨h1, h2, h3, h4, h5⟩
    exact ⟨hyesterday ▸ h1, htoday ▸ h2, htomorrow ▸ h3, hweek ▸ h4, hmonth ▸ h5⟩

/-! ### Which day a tab shows -/

theorem dated_iff {h : HoroscopeDTO} {d : Date} :
    Dated h d ↔ Named d ∧ h.date = 86400 * d.dayNumber := by
  unfold Dated
  rw [dateStringToDate_dateString]
  by_cases hd : Named d
  · rw [if_pos hd, Option.some.injEq]
    exact ⟨fun he => ⟨hd, he.symm⟩, fun he => he.2.symm⟩
  · rw [if_neg hd]
    exact ⟨fun he => (by cases he), fun he => absurd he.1 hd⟩

/-- The midnight of UTC falls into the day that the whole days of the offset
lead to. -/
theorem midnight_eq_iff {k : Int} {h : HoroscopeDTO} {c : Date} (hc : h.date = 86400 * c.dayNumber) :
    midnight o k = midnight o ((h.date + o) / 86400) ↔ k = c.dayNumber + o / 86400 := by
  rw [hc]
  unfold midnight
  omega

theorem shows_of_eq {k : Int} {d : Date} {fetched : List (Option HoroscopeDTO)}
    (hk : k = d.dayNumber + o / 86400) (hdated : ∀ h, some h ∈ fetched → ∃ c, Dated h c) :
    Shows d fetched (hasHoroscopeWithDate o (midnight o k) fetched) := by
  rw [find_eq]
  refine ⟨fun h hfound => ?_, fun h hh hd hnone => ?_⟩
  · have hmem : some h ∈ fetched := by simpa using List.mem_of_find?_eq_some hfound
    obtain ⟨c, hc⟩ := hdated h hmem
    have hstamp := (midnight_eq_iff (dated_iff.mp hc).2).mp (by simpa using List.find?_some hfound)
    have hcd : c = d := dayNumber_injective (by omega)
    exact hcd ▸ hc
  · have hmem : h ∈ fetched.filterMap id := by simpa using hh
    have hmiss := List.find?_eq_none.mp hnone h hmem
    exact hmiss (by simpa using (midnight_eq_iff (dated_iff.mp hd).2).mpr hk)

/-- A horoscope of a day. -/
def horoscopeOf (d : Date) : HoroscopeDTO := ⟨"text", 86400 * d.dayNumber⟩

theorem horoscopeOf_content (d : Date) : (horoscopeOf d).content ≠ "" := by
  change "text" ≠ ""
  decide

theorem eq_of_shows {k : Int} {d : Date} {fetched : List (Option HoroscopeDTO)} (hd : Named d)
    (hfetched : fetched.filterMap id = [horoscopeOf d])
    (hshows : Shows d fetched (hasHoroscopeWithDate o (midnight o k) fetched)) :
    k = d.dayNumber + o / 86400 := by
  have hdate : (horoscopeOf d).date = 86400 * d.dayNumber := rfl
  have hmem : some (horoscopeOf d) ∈ fetched := by
    have h : horoscopeOf d ∈ fetched.filterMap id := by
      rw [hfetched]; exact List.mem_singleton_self _
    simpa using h
  have hsome := hshows.complete _ hmem (dated_iff.mpr ⟨hd, hdate⟩)
  rw [find_eq, hfetched] at hsome
  by_contra hne
  refine hsome (List.find?_eq_none.mpr fun h hh => ?_)
  rw [List.mem_singleton.mp hh]
  simpa using fun he => hne ((midnight_eq_iff hdate).mp he)

theorem truncate_of_nonneg {x : ℚ} (h : 0 ≤ x) : truncate x = ⌊x⌋ := by
  rw [truncate, Rat.floor_def', Int.tdiv_eq_ediv_of_nonneg (Rat.num_nonneg.mpr h)]

theorem floor_le_truncate (x : ℚ) : ⌊x⌋ ≤ truncate x := by
  have hsign : (x.den : Int).sign = 1 := Int.sign_eq_one_of_pos (Int.natCast_pos.mpr x.den_pos)
  rw [truncate, Rat.floor_def', Int.tdiv_eq_ediv]
  split <;> omega

/-- The day of the tabs is the local day, moved by the whole days of the
offset, exactly when no second day is carried. -/
theorem day_eq_iff (o : Int) (t : ℚ) :
    (truncate (t + o) + o) / 86400 = localDay o t + o / 86400 ↔
      truncate (t + o) / 86400 = localDay o t ∧ truncate (t + o) % 86400 + o % 86400 < 86400 := by
  have hle := floor_le_truncate (t + o)
  unfold localDay
  omega

theorem monday_add_eq_iff (k q : Int) : monday (k + q) = monday k + q ↔ weekday (k + q) = weekday k := by
  unfold monday weekday
  omega

theorem firstOfMonth_add_eq_iff (k q : Int) :
    (ofDayNumber (k + q)).firstOfMonth.dayNumber = (ofDayNumber k).firstOfMonth.dayNumber + q ↔
      (ofDayNumber (k + q)).day = (ofDayNumber k).day := by
  rw [dayNumber_firstOfMonth, dayNumber_firstOfMonth, dayNumber_ofDayNumber, dayNumber_ofDayNumber]
  omega

theorem named_monday {k : Int} (hlow : -2 ^ 31 < (ofDayNumber k).year)
    (hhigh : (ofDayNumber k).year < 2 ^ 31) : Named (ofDayNumber (monday k)) := by
  have hmonday : k - 6 ≤ monday k ∧ monday k ≤ k := by
    unfold monday
    omega
  obtain ⟨hfirst, hnext⟩ := yearOf_spec (monday k)
  obtain ⟨hfirst', hnext'⟩ := yearOf_spec k
  change -2 ^ 31 < yearOf k at hlow
  change yearOf k < 2 ^ 31 at hhigh
  refine ⟨?_, ?_⟩
  · show -2 ^ 31 ≤ yearOf (monday k)
    by_contra hlt
    -- a year is longer than a week
    have hmono := firstOfYear_mono (show yearOf (monday k) + 1 ≤ yearOf k - 1 by omega)
    have hlength := firstOfYear_succ (yearOf k - 1)
    have hsum : 7 ≤ (monthLengths (isLeap (yearOf k - 1))).sum := by
      cases isLeap (yearOf k - 1) <;> decide
    rw [Int.sub_add_cancel] at hlength
    omega
  · show yearOf (monday k) < 2 ^ 31
    by_contra hge
    have hmono := firstOfYear_mono (show yearOf k + 1 ≤ yearOf (monday k) by omega)
    omega

/-- A horoscope for each of three days that should be shown. -/
def dueHoroscopes (o : Int) (t : ℚ) : Horoscopes where
  yesterday := none
  today := some (horoscopeOf (localDate o t))
  tomorrow := none
  week := some (horoscopeOf (ofDayNumber (monday (localDay o t))))
  month := some (horoscopeOf (localDate o t).firstOfMonth)
  year := none

section Years

variable (o : Int) (t : ℚ) (hlow : -2 ^ 31 < (localDate o t).year)
  (hhigh : (localDate o t).year < 2 ^ 31)

include hlow hhigh

theorem dueHoroscopes_fetched : AllDated (dueHoroscopes o t) ∧ AllWritten (dueHoroscopes o t) := by
  have hof : ∀ {d : Date}, Named d → Dated (horoscopeOf d) d := fun hd => dated_iff.mpr ⟨hd, rfl⟩
  have hname : Named (localDate o t) := ⟨Int.le_of_lt hlow, hhigh⟩
  refine ⟨fun x hx => ?_, fun x hx => ?_⟩
  all_goals
    simp only [dueHoroscopes, List.mem_cons, List.not_mem_nil, Option.some.injEq, reduceCtorEq,
      or_false, false_or] at hx
    rcases hx with rfl | rfl | rfl
  · exact ⟨_, hof hname⟩
  · exact ⟨_, hof (named_monday hlow hhigh)⟩
  · exact ⟨_, hof (show Named (localDate o t).firstOfMonth from hname)⟩
  all_goals exact horoscopeOf_content _

/-- If these are shown, the offset does not shift them. -/
theorem unshifted_of_shows {times : Timestamps} (htimes : timestamps o t = some times)
    (hshows : ShowsLocalDays o t (dueHoroscopes o t)
      (handleFetchedHoroscopes o times (dueHoroscopes o t))) : Unshifted o t := by
  have hname : Named (localDate o t) := ⟨Int.le_of_lt hlow, hhigh⟩
  have hfirst : Named (localDate o t).firstOfMonth := hname
  rw [timestamps_eq] at htimes
  obtain rfl := Option.some.inj htimes
  obtain ⟨-, hshown, -, hshown', hshown''⟩ :=
    (showsLocalDays_iff (dueHoroscopes_fetched o t hlow hhigh).2).mp hshows
  have htoday := eq_of_shows hname rfl hshown
  have hweek := eq_of_shows (named_monday hlow hhigh) rfl hshown'
  have hmonth := eq_of_shows hfirst rfl hshown''
  have hnumber : (localDate o t).dayNumber = localDay o t := dayNumber_ofDayNumber _
  rw [hnumber] at htoday
  rw [htoday, dayNumber_ofDayNumber] at hweek
  rw [htoday] at hmonth
  obtain ⟨hday, htime⟩ := (day_eq_iff o t).mp htoday
  exact ⟨hday, htime, (monday_add_eq_iff _ _).mp hweek, (firstOfMonth_add_eq_iff _ _).mp hmonth⟩

end Years

theorem Unshifted.shows {o : Int} {t : ℚ} (h : Unshifted o t) {fetched : Horoscopes}
    (hdated : AllDated fetched) (hwritten : AllWritten fetched) :
    ∃ times, timestamps o t = some times ∧
      ShowsLocalDays o t fetched (handleFetchedHoroscopes o times fetched) := by
  have hday := (day_eq_iff o t).mpr ⟨h.day, h.time⟩
  have hdays : ∀ x, some x ∈ [fetched.yesterday, fetched.today, fetched.tomorrow] →
      ∃ d, Dated x d := fun x hx => hdated x (by simp at hx ⊢; tauto)
  have hweekly : ∀ x, some x ∈ [fetched.week] → ∃ d, Dated x d :=
    fun x hx => hdated x (by simp at hx ⊢; tauto)
  have hmonthly : ∀ x, some x ∈ [fetched.month] → ∃ d, Dated x d :=
    fun x hx => hdated x (by simp at hx ⊢; tauto)
  refine ⟨_, timestamps_eq o t, (showsLocalDays_iff hwritten).mpr ?_⟩
  rw [hday]
  refine ⟨shows_of_eq ?_ hdays, shows_of_eq ?_ hdays, shows_of_eq ?_ hdays,
    shows_of_eq ?_ hweekly, shows_of_eq ?_ hmonthly⟩
  · rw [dayNumber_ofDayNumber]
    omega
  · rw [localDate, dayNumber_ofDayNumber]
  · rw [dayNumber_ofDayNumber]
    omega
  · rw [dayNumber_ofDayNumber]
    exact (monday_add_eq_iff _ _).mpr h.week
  · exact (firstOfMonth_add_eq_iff _ _).mpr h.month

/-- **The tabs show the local days exactly when the offset that is added twice
does not change the day**, whatever horoscopes were fetched. -/
theorem shows_local_days_iff (o : Int) (t : ℚ) (hlow : -2 ^ 31 < (localDate o t).year)
    (hhigh : (localDate o t).year < 2 ^ 31) :
    (∀ fetched, AllDated fetched → AllWritten fetched → ∃ times, timestamps o t = some times ∧
      ShowsLocalDays o t fetched (handleFetchedHoroscopes o times fetched)) ↔ Unshifted o t := by
  constructor
  · intro h
    obtain ⟨hdated, hwritten⟩ := dueHoroscopes_fetched o t hlow hhigh
    obtain ⟨times, htimes, hshows⟩ := h _ hdated hwritten
    exact unshifted_of_shows o t hlow hhigh htimes hshows
  · exact fun h fetched hdated hwritten => h.shows hdated hwritten

/-- With less than a day of offset: not west of UTC, and not after the hour of
the day at which adding the offset once more ends the day. -/
theorem unshifted_iff {o : Int} {t : ℚ} (hwest : -86400 < o) (heast : o < 86400) (ht : 0 ≤ t + o) :
    Unshifted o t ↔ 0 ≤ o ∧ ⌊t + o⌋ % 86400 + o < 86400 := by
  have htruncate := truncate_of_nonneg ht
  refine ⟨fun h => ?_, fun ⟨ho, htime⟩ => ?_⟩
  · have hweek := h.week
    have htime := h.time
    unfold weekday at hweek
    rw [htruncate] at htime
    omega
  · have hzero : o / 86400 = 0 := by omega
    refine ⟨by rw [htruncate]; rfl, by rw [htruncate]; omega, ?_, ?_⟩
    · rw [hzero, Int.add_zero]
    · rw [hzero, Int.add_zero]
      rfl

end

/-! ### An evening in UTC+3 -/

/-- What is fetched for the fifth of November 2017, a Sunday. -/
def november : Horoscopes where
  yesterday := some (horoscopeOf (ofDayNumber 17474))
  today := some (horoscopeOf (ofDayNumber 17475))
  tomorrow := some (horoscopeOf (ofDayNumber 17476))
  week := some (horoscopeOf (ofDayNumber 17469))
  month := some (horoscopeOf (ofDayNumber 17471))
  year := none

theorem november_fetched : AllDated november ∧ AllWritten november := by
  have hof : ∀ k, Named (ofDayNumber k) → Dated (horoscopeOf (ofDayNumber k)) (ofDayNumber k) :=
    fun k hk => dated_iff.mpr ⟨hk, rfl⟩
  refine ⟨fun x hx => ?_, fun x hx => ?_⟩
  all_goals
    simp only [november, List.mem_cons, List.not_mem_nil, Option.some.injEq, or_false] at hx
    rcases hx with rfl | rfl | rfl | rfl | rfl
  · exact ⟨_, hof _ (by decide +kernel)⟩
  · exact ⟨_, hof _ (by decide +kernel)⟩
  · exact ⟨_, hof _ (by decide +kernel)⟩
  · exact ⟨_, hof _ (by decide +kernel)⟩
  · exact ⟨_, hof _ (by decide +kernel)⟩
  all_goals exact horoscopeOf_content _

/-- At noon of the day in UTC+1 every tab is right. -/
theorem noon_shows_local_days : ∃ times, timestamps 3600 1509879600 = some times ∧
    ShowsLocalDays 3600 1509879600 november (handleFetchedHoroscopes 3600 times november) :=
  (shows_local_days_iff 3600 1509879600 (by decide +kernel) (by decide +kernel)).mpr
    ⟨by decide +kernel, by decide +kernel, by decide +kernel, by decide +kernel⟩
    november november_fetched.1 november_fetched.2

/-- At ten in the evening in UTC+3 the horoscope of the day is not shown as the
one of today. -/
theorem evening_hides_today : ¬ ∀ fetched, AllDated fetched → AllWritten fetched →
    ∃ times, timestamps 10800 1509908400 = some times ∧
      ShowsLocalDays 10800 1509908400 fetched (handleFetchedHoroscopes 10800 times fetched) := by
  intro h
  obtain ⟨times, htimes, hshows⟩ := h november november_fetched.1 november_fetched.2
  have hlocal : localDate 10800 1509908400 = ofDayNumber 17475 := by decide +kernel
  rw [timestamps_eq] at htimes
  obtain rfl := Option.some.inj htimes
  have hdated := hshows.today.dated (horoscopeOf (ofDayNumber 17476)) (by decide +kernel)
  rw [hlocal, dated_iff] at hdated
  exact absurd hdated.2 (by decide +kernel)

end PredictionScreen
end Horo
