/-
# The pusher

`src/server/pusher` and `dayHoroscopeWithDate` of `src/server/common/horostorage.js`:
every hour the prediction of the day is read for each sign and published to
the room of the sign and the hour.

* `same_today_iff`: the pusher reads the document that the builder of the
  application's documents takes for today exactly while the server's date is
  the date in UTC.
-/
import Horo.Server.Dates
import Horo.Server.TtyCreator

namespace Horo
namespace Server

open Lib EcmaDate

/-! ### The program -/

/-- The path that `dayHoroscopeWithDate` reads. -/
def dayHoroscopePath (date : Int) (zodiacName : String) : String :=
  let day := getUTCDate date
  let month := getUTCMonth date + 1
  let year := getUTCFullYear date
  let dateString := String.ofList (intDigits day ++ '.' :: (intDigits month ++ '.' :: intDigits year))
  "storage/days/" ++ zodiacName ++ "/" ++ dateString

/-- What `sendTodayPushToZodiacName` reads, and the room it publishes to when
the content has arrived. -/
structure TodayPush where
  path : String
  roomname : String
  deriving DecidableEq, Repr

def sendTodayPushToZodiacName (todayDate time : Int) (zodiacName : String) : TodayPush :=
  { path := dayHoroscopePath todayDate zodiacName
    roomname := zodiacName ++ String.ofList (intDigits time) }

/-- The list `times`. -/
def times : List Int := (List.range 24).map Int.ofNat

/-- What the job of an hour sends, when it is run at `todayDate`. -/
def jobForTime (todayDate time : Int) : List TodayPush :=
  zodiacs.map fun zodiacName => sendTodayPushToZodiacName todayDate time zodiacName.name

/-! ### A job -/

/-- No room gets two pushes from a job. -/
theorem nodup_roomname_jobForTime (todayDate time : Int) :
    ((jobForTime todayDate time).map TodayPush.roomname).Nodup := by
  have hrooms : (jobForTime todayDate time).map TodayPush.roomname =
      (zodiacs.map Sign.name).map (· ++ String.ofList (intDigits time)) := by
    simp only [jobForTime, List.map_map]
    rfl
  rw [hrooms]
  apply nodup_names.map
  intro name name' h
  have hlist := congrArg String.toList h
  simp only [String.toList_append, List.append_cancel_right_eq] at hlist
  exact String.toList_injective hlist

/-! ### Today -/

theorem dayHoroscopePath_eq (date : Int) (z : Sign) :
    dayHoroscopePath date z.name = storagePath z .today (dateToDateString 0 date) := by
  have hpath : "storage/" ++ horoTypeByTabsType .today ++ "/" = "storage/days/" := by decide
  rw [storagePath, hpath]
  rfl

/-- What the builder reads for today at the instant `t`. -/
theorem reads_today (offset t : Int) (z : Sign) (s : State) :
    (requestPredictionsForZodiac z (dateStringFromType offset t t) s).reads z .today =
      some (storagePath z .today (dateToDateString offset t)) := by
  obtain ⟨_, _, _, hreads⟩ := startTabs_spec z (dateStringFromType offset t t) types
    { s with globals := { s.globals with dictionary := fun _ => none, types := types } }
  rw [requestPredictionsForZodiac, hreads, if_pos ⟨rfl, by decide⟩]
  rfl

/-- **When the pusher and the builder mean the same day.** At an instant the
pusher reads the path that the builder reads for today if and only if the date
on the server's clock is the date in UTC. -/
theorem same_today_iff (offset t time : Int) (z : Sign) (s : State) :
    (requestPredictionsForZodiac z (dateStringFromType offset t t) s).reads z .today =
        some (sendTodayPushToZodiacName t time z.name).path ↔
      localDay offset t = localDay 0 t := by
  rw [reads_today, sendTodayPushToZodiacName, dayHoroscopePath_eq, Option.some_inj,
    storagePath_inj, dateToDateString_inj]

/-- An hour after midnight in Moscow on 2 January 2018 the pusher still reads
the prediction of the day before. -/
theorem moscow_reads_two_days :
    (requestPredictionsForZodiac .leo (dateStringFromType 10800000 1514844000000 1514844000000)
        initial).reads .leo .today = some "storage/days/leo/2.1.2018" ∧
      (sendTodayPushToZodiacName 1514844000000 22 "leo").path = "storage/days/leo/1.1.2018" ∧
      (requestPredictionsForZodiac .leo (dateStringFromType 10800000 1514844000000 1514844000000)
          initial).reads .leo .today ≠ some (sendTodayPushToZodiacName 1514844000000 22 "leo").path := by
  decide +kernel

end Server
end Horo
