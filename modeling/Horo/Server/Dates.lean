/-
# The date strings of the server

`dateToDateString` and `dateStringFromType` of `src/server/common/common.js`,
on a machine whose clocks are `offset` milliseconds ahead of UTC. The clock is
read as often as the source says `new Date()`: once, and for three of the types
a second time.

* `localDay_dateFromType`: the day that a type names, by the days on which the
  clock was read.
* `dateStringFromType_inj`: equal strings name one day.
* `denotes_iff`: a call during which the day changes names a right day only if
  the month does not change with it.
-/
import Horo.Lib.EcmaDate
import Horo.HoroscopesParser
import Horo.Server.Storage

namespace Horo
namespace Server

open Lib Calendar EcmaDate

def dateToDateString (offset aDate : Int) : String :=
  String.ofList (intDigits (getDate offset aDate) ++
    '.' :: (intDigits (getMonth offset aDate + 1) ++ '.' :: intDigits (getFullYear offset aDate)))

/-- The `Date` whose string is returned. -/
def dateFromType (offset date newDate : Int) : TabsType → Int
  | .today => date
  | .yesterday => setDate offset newDate (getDate offset date - 1)
  | .tomorrow => setDate offset newDate (getDate offset date + 1)
  | .weekly =>
    let day := getDay offset date
    let day := if 0 < day then day - 1 else 6
    setDate offset newDate (getDate offset date - day)
  | .monthly => setDate offset date 1
  | .year => setMonth offset (setDate offset date 1) 0

def dateStringFromType (offset date newDate : Int) (type : TabsType) : String :=
  dateToDateString offset (dateFromType offset date newDate type)

/-! ### The days that are named -/

/-- The day of the month of a day. -/
def mday (day : Int) : Int := (ofDayNumber day).day

/-- The day that a type names when the clock is read on `day` first and on
`newDay` then: the second reading is moved by days of the month of the first. -/
def namedDay (day newDay : Int) : TabsType → Int
  | .today => day
  | .yesterday => newDay + (mday day - mday newDay) - 1
  | .tomorrow => newDay + (mday day - mday newDay) + 1
  | .weekly => newDay + (mday day - mday newDay) + (monday day - day)
  | .monthly => day - (mday day - 1)
  | .year => firstOfYear (ofDayNumber day).year

theorem getDate_eq (offset t : Int) : getDate offset t = mday (localDay offset t) := rfl

theorem getDay_eq (offset t : Int) :
    (if 0 < getDay offset t then getDay offset t - 1 else 6) =
      localDay offset t - monday (localDay offset t) := by
  unfold getDay weekday monday
  split <;> omega

/-- **The day of a type**, by the days on which the clock was read. -/
theorem localDay_dateFromType (offset date newDate : Int) (type : TabsType) :
    localDay offset (dateFromType offset date newDate type) =
      namedDay (localDay offset date) (localDay offset newDate) type := by
  cases type with
  | today => rfl
  | yesterday =>
    rw [dateFromType, localDay_setDate, getDate_eq, getDate_eq, namedDay]
    omega
  | tomorrow =>
    rw [dateFromType, localDay_setDate, getDate_eq, getDate_eq, namedDay]
    omega
  | weekly =>
    rw [dateFromType, getDay_eq, localDay_setDate, getDate_eq, getDate_eq, namedDay]
    omega
  | monthly =>
    rw [dateFromType, localDay_setDate, getDate_eq, namedDay]
    omega
  | year =>
    have hfirst : localDay offset (setDate offset date 1) =
        (localDate offset date).firstOfMonth.dayNumber := by
      rw [localDay_setDate, dayNumber_firstOfMonth, getDate, localDate, dayNumber_ofDayNumber]
      omega
    have hdate : localDate offset (setDate offset date 1) = (localDate offset date).firstOfMonth := by
      rw [localDate, hfirst, ofDayNumber_dayNumber]
    rw [dateFromType, localDay_setMonth, getFullYear, getDate, hdate]
    simp [dayNumberOf, Date.firstOfMonth, namedDay, localDate]

/-- What the types name when the clock is read on one day. -/
theorem namedDay_self (day : Int) :
    namedDay day day .yesterday = day - 1 ∧ namedDay day day .tomorrow = day + 1 ∧
      namedDay day day .weekly = monday day := by
  simp only [namedDay]
  omega

/-! ### The strings -/

theorem dateToDateString_eq (offset t : Int) :
    dateToDateString offset t = String.ofList (HoroscopesParser.dateString (localDate offset t)) := by
  have hmonth : (localDate offset t).month - 1 + 1 = ((localDate offset t).month : Int) := by omega
  rw [dateToDateString, getMonth, hmonth]
  rfl

theorem dateString_injective {d e : Date}
    (h : HoroscopesParser.dateString d = HoroscopesParser.dateString e) : d = e := by
  have hparts := HoroscopesParser.separateString_dateString d
  rw [h, HoroscopesParser.separateString_dateString e] at hparts
  simp only [List.cons.injEq, and_true] at hparts
  have hday := intDigits_injective hparts.1
  have hmonth := intDigits_injective hparts.2.1
  have hyear := intDigits_injective hparts.2.2
  obtain ⟨_, _, _, _, _, _, _⟩ := d
  obtain ⟨_, _, _, _, _, _, _⟩ := e
  simp only [Date.mk.injEq] at hday hmonth hyear ⊢
  omega

/-- Equal strings are strings of one day. -/
theorem dateToDateString_inj {offset offset' t t' : Int} :
    dateToDateString offset t = dateToDateString offset' t' ↔ localDay offset t = localDay offset' t' := by
  rw [dateToDateString_eq, dateToDateString_eq]
  constructor
  · intro h
    have hdate := dateString_injective (String.ofList_injective h)
    have hday : (localDate offset t).dayNumber = (localDate offset' t').dayNumber := by rw [hdate]
    rwa [localDate, localDate, dayNumber_ofDayNumber, dayNumber_ofDayNumber] at hday
  · intro h
    rw [localDate, localDate, h]

/-- **Equal strings of a type name one day.** -/
theorem dateStringFromType_inj {offset date newDate date' newDate' : Int} {type : TabsType} :
    dateStringFromType offset date newDate type = dateStringFromType offset date' newDate' type ↔
      namedDay (localDay offset date) (localDay offset newDate) type =
        namedDay (localDay offset date') (localDay offset newDate') type := by
  rw [dateStringFromType, dateStringFromType, dateToDateString_inj, localDay_dateFromType,
    localDay_dateFromType]

/-! ### Calls during which the day changes -/

/-- The day that a type is for on a date. -/
def dayFor (d : Date) : TabsType → Int
  | .today => d.dayNumber
  | .yesterday => d.dayNumber - 1
  | .tomorrow => d.dayNumber + 1
  | .weekly => monday d.dayNumber
  | .monthly => d.firstOfMonth.dayNumber
  | .year => firstOfYear d.year

/-- The string is that of the day for the date of one of the readings. -/
def Denotes (offset date newDate : Int) (type : TabsType) : Prop :=
  ∃ t ∈ [date, newDate], dateStringFromType offset date newDate type =
    String.ofList (HoroscopesParser.dateString (ofDayNumber (dayFor (localDate offset t) type)))

theorem dateStringFromType_eq_iff (offset date newDate day : Int) (type : TabsType) :
    dateStringFromType offset date newDate type =
        String.ofList (HoroscopesParser.dateString (ofDayNumber day)) ↔
      namedDay (localDay offset date) (localDay offset newDate) type = day := by
  rw [dateStringFromType, dateToDateString_eq, localDate, localDay_dateFromType]
  constructor
  · intro h
    have hdate := dateString_injective (String.ofList_injective h)
    rw [← dayNumber_ofDayNumber day, ← hdate, dayNumber_ofDayNumber]
  · intro h
    rw [h]

/-- The second reading is on the day of the first or on the next one. -/
theorem localDay_or_succ {offset date newDate : Int} (hle : date ≤ newDate)
    (hlt : newDate < date + msPerDay) :
    localDay offset newDate = localDay offset date ∨
      localDay offset newDate = localDay offset date + 1 := by
  unfold localDay msPerDay at *
  omega

/-- **A call names the right day exactly if both readings are of one month.**
After the last day of a month the second date is moved by the length of that
month. -/
theorem denotes_iff {offset date newDate : Int} {type : TabsType} (hle : date ≤ newDate)
    (hlt : newDate < date + msPerDay) (htype : type ∈ [TabsType.yesterday, .tomorrow, .weekly]) :
    Denotes offset date newDate type ↔ (localDate offset date).SameMonth (localDate offset newDate) := by
  have hdenotes : Denotes offset date newDate type ↔
      ∃ t ∈ [date, newDate], namedDay (localDay offset date) (localDay offset newDate) type =
        dayFor (localDate offset t) type := by
    simp only [Denotes, dateStringFromType_eq_iff]
  rw [hdenotes]
  simp only [localDate]
  generalize hday : localDay offset date = day
  have hnewDay : localDay offset newDate = day ∨ localDay offset newDate = day + 1 :=
    hday ▸ localDay_or_succ hle hlt
  have hexists : (∃ t ∈ [date, newDate], namedDay day (localDay offset newDate) type =
      dayFor (ofDayNumber (localDay offset t)) type) ↔
      namedDay day (localDay offset newDate) type = dayFor (ofDayNumber day) type ∨
        namedDay day (localDay offset newDate) type =
          dayFor (ofDayNumber (localDay offset newDate)) type := by
    simp [hday]
  rw [hexists]
  have hweek : ∀ k, monday k ≤ k ∧ k ≤ monday k + 6 := by
    intro k
    unfold monday
    omega
  simp only [List.mem_cons, List.not_mem_nil, or_false] at htype
  rcases hnewDay with hnew | hnew
  · -- one day: nothing moves
    rw [hnew]
    refine iff_of_true (Or.inl ?_) ⟨rfl, rfl⟩
    rcases htype with rfl | rfl | rfl <;> simp only [namedDay, dayFor, dayNumber_ofDayNumber] <;> omega
  · rw [hnew]
    rcases ofDayNumber_succ day with ⟨hsame, hnext⟩ | ⟨hdiff, hfirst, hlast⟩
    · refine iff_of_true (Or.inl ?_) hsame
      rcases htype with rfl | rfl | rfl <;>
        simp only [namedDay, mday, dayFor, dayNumber_ofDayNumber, hnext] <;> omega
    · refine iff_of_false (fun h => ?_) hdiff
      have hmonday := hweek day
      have hmonday' := hweek (day + 1)
      rcases htype with rfl | rfl | rfl <;>
        simp only [namedDay, mday, dayFor, dayNumber_ofDayNumber, hfirst] at h <;> omega

theorem denotes_noon : Denotes 0 1514721600000 1514721600001 .yesterday :=
  (denotes_iff (by decide) (by decide) (by decide)).mpr (by decide)

/-- Read before and after the midnight that ends January, yesterday is 2 March. -/
theorem january_ends : (1517443199999 : Int) ≤ 1517443200000 ∧
    (1517443200000 : Int) < 1517443199999 + msPerDay ∧
    dateStringFromType 0 1517443199999 1517443200000 .yesterday = "2.3.2018" ∧
      ¬ Denotes 0 1517443199999 1517443200000 .yesterday := by
  refine ⟨by decide, by decide, by decide +kernel, ?_⟩
  rintro ⟨t, ht, h⟩
  rw [dateStringFromType_eq_iff] at h
  simp only [List.mem_cons, List.not_mem_nil, or_false] at ht
  rcases ht with rfl | rfl
  · exact absurd h (by decide)
  · exact absurd h (by decide)

end Server
end Horo
