/-
# The dates of ECMAScript

A `Date` is its time value, the milliseconds since the first moment of 1970 in
UTC. Its local accessors and setters work on the clock of a zone that is
`offset` milliseconds ahead of UTC; the limits of a time value are those of the
clock readings (`Reading`), the setters do not clip.

* `localDay_setDate`, `localDay_setMonth`: another day of the month is as many
  days away, another month is counted from January.
-/
import Horo.Lib.Calendar

namespace Horo
namespace Lib
namespace EcmaDate

open Calendar

def msPerDay : Int := 86400000

/-- `Day(LocalTime(t))`. -/
def localDay (offset t : Int) : Int := (t + offset) / msPerDay

/-- `TimeWithinDay(LocalTime(t))`. -/
def timeWithinDay (offset t : Int) : Int := (t + offset) % msPerDay

def localDate (offset t : Int) : Date := ofDayNumber (localDay offset t)

def getDate (offset t : Int) : Int := (localDate offset t).day

def getMonth (offset t : Int) : Int := (localDate offset t).month - 1

def getFullYear (offset t : Int) : Int := (localDate offset t).year

def getDay (offset t : Int) : Int := weekday (localDay offset t)

def getUTCDate (t : Int) : Int := getDate 0 t

def getUTCMonth (t : Int) : Int := getMonth 0 t

def getUTCFullYear (t : Int) : Int := getFullYear 0 t

/-- `UTC(MakeDate(MakeDay(year, month, date), time))`. -/
def makeDate (offset year month date time : Int) : Int :=
  msPerDay * dayNumberOf year month date + time - offset

/-- The time value that `setDate` leaves. -/
def setDate (offset t date : Int) : Int :=
  makeDate offset (getFullYear offset t) (getMonth offset t) date (timeWithinDay offset t)

/-- The time value that `setMonth` leaves. -/
def setMonth (offset t month : Int) : Int :=
  makeDate offset (getFullYear offset t) month (getDate offset t) (timeWithinDay offset t)

/-! ### The days of dates that are set -/

theorem localDay_makeDate (offset year month date t : Int) :
    localDay offset (makeDate offset year month date (timeWithinDay offset t)) =
      dayNumberOf year month date := by
  unfold localDay makeDate timeWithinDay msPerDay
  omega

theorem dayNumberOf_getDate (offset t : Int) :
    dayNumberOf (getFullYear offset t) (getMonth offset t) (getDate offset t) =
      localDay offset t := dayNumber_ofDayNumber (localDay offset t)

theorem localDay_setDate (offset t date : Int) :
    localDay offset (setDate offset t date) = localDay offset t + (date - getDate offset t) := by
  rw [setDate, localDay_makeDate, dayNumberOf_mday _ _ (getDate offset t), dayNumberOf_getDate]

theorem localDay_setMonth (offset t month : Int) :
    localDay offset (setMonth offset t month) =
      dayNumberOf (getFullYear offset t) month (getDate offset t) := by
  rw [setMonth, localDay_makeDate]

/-! ### Clock readings -/

/-- What `new Date()` can give, in a zone less than a day away from UTC. -/
structure Reading where
  offset : Int
  time : Int
  offset_lt : offset.natAbs < 86400000
  time_le : time.natAbs ≤ 8640000000000000
  deriving DecidableEq, Repr

def Reading.day (r : Reading) : Int := localDay r.offset r.time

theorem Reading.day_le (r : Reading) : -100000001 ≤ r.day ∧ r.day ≤ 100000001 := by
  have hoffset := r.offset_lt
  have htime := r.time_le
  unfold day localDay msPerDay
  omega

end EcmaDate
end Lib
end Horo
