/-
# The parser of the horoscopes

`src/managers/horoscopesparser`: a document of the server becomes the six
horoscopes of the application; a date `D.M.YYYY` becomes the time of its
midnight in UTC.
-/
import Horo.Data.Horoscope
import Horo.Lib.Calendar

namespace Horo
namespace HoroscopesParser

open Lib Calendar

/-- `kMaximumDaysCount`. -/
def maximumDaysCount : Int := 31

/-- `kMaximumMonthCount`. -/
def maximumMonthCount : Int := 12

/-- `none` where `std::stoi` throws. -/
def dateStringToDate (dateString : List Char) : Option Int :=
  match separateString dateString '.' with
  | [dayPart, monthPart, yearPart] => do
    let day ← stoi dayPart
    let month ← stoi monthPart
    let year ← stoi yearPart
    if maximumDaysCount < day.toInt then return 0
    if maximumMonthCount < month.toInt then return 0
    return timegm { sec := 0, min := 0, hour := 0, mday := day.toInt, mon := month.toInt - 1,
                    year := year.toInt - 1900, wday := 0, yday := 0, isdst := 0, gmtoff := 0 }
  | _ => some 0

/-- The table `types`. -/
def types : List (String × HoroscopeType) := Period.all.map fun p => (p.key, p.type)

/-- An element of the array: the key of its pointer, and the horoscope. A type
that is not in the table is null there, which is read as 0. -/
def parseObject (zodiac : Int32) (object : Json.Value) : Option (String × HoroscopeDTO) := do
  let content ← object.get "content"
  let dateString ← (← object.get "date").asString
  let date ← dateStringToDate dateString.toList
  let type ← (← object.get "type").asString
  let mapped := Json.Value.object [("content", content), ("date", .int date),
    ("type", .int ((types.lookup type).getD .day).toInt32.toInt), ("zodiac", .int zodiac.toInt)]
  return (type, ← HoroscopeDTO.decode mapped)

/-- The horoscope under a key: of several with one type the last. -/
def pointers (horoscopes : List (String × HoroscopeDTO)) (key : String) : Option HoroscopeDTO :=
  horoscopes.reverse.lookup key

/-- `none` where the parser throws. -/
def parse (data : Json.Value) : Option Horoscopes := do
  match ← data.get "result" with
  | .array array =>
    let zodiac ← (← data.get "zodiac").asInt
    let horoscopes ← array.mapM (parseObject zodiac)
    return fun p => pointers horoscopes p.key
  | _ => return Horoscopes.none

/-- The date string of a day. -/
def dateString (d : Date) : List Char :=
  intDigits d.day ++ '.' :: (intDigits d.month ++ '.' :: intDigits d.year)

theorem nul_notMem_dateString (d : Date) : '\x00' ∉ dateString d := by
  have hint : ∀ i : Int, '\x00' ∉ intDigits i := fun i h => by
    rcases mem_intDigits h with h | h <;> cases h
  simp [dateString, hint]

/-- The day has a date string that `std::stoi` reads. -/
def Named (d : Date) : Prop := -2 ^ 31 ≤ d.year ∧ d.year < 2 ^ 31

instance (d : Date) : Decidable (Named d) := inferInstanceAs (Decidable (_ ∧ _))

/-- Two thousand million years either way. -/
theorem named_ofDayNumber {k : Int} (h : k.natAbs ≤ 700000000000) : Named (ofDayNumber k) := by
  obtain ⟨hlow, hhigh⟩ := yearOf_spec k
  unfold firstOfYear at hlow hhigh
  unfold Named
  simp only [ofDayNumber]
  omega

theorem separateString_dateString (d : Date) :
    separateString (dateString d) '.' = [intDigits d.day, intDigits d.month, intDigits d.year] := by
  have hdot : ∀ i : Int, '.' ∉ intDigits i := fun i h => by
    rcases mem_intDigits h with h | h <;> cases h
  rw [dateString, separateString_append (hdot _) (intDigits_ne_nil _),
    separateString_append (hdot _) (intDigits_ne_nil _),
    separateString_last (hdot _) (intDigits_ne_nil _)]

theorem stoi_eq_some {i : Int} (hlow : -2 ^ 31 ≤ i) (hhigh : i < 2 ^ 31) :
    stoi (intDigits i) = some (Int32.ofInt i) ∧ (Int32.ofInt i).toInt = i := by
  have hrange : Json.Value.InIntRange i := ⟨hlow, Int.le_sub_one_of_lt hhigh⟩
  refine ⟨?_, Int32.toInt_ofInt_of_le hlow hhigh⟩
  rw [stoi_intDigits, Json.Value.toInt32, if_pos hrange]

/-- **The date string of a day gives the midnight of the day**, if its year is
an `int`. -/
theorem dateStringToDate_dateString (d : Date) :
    dateStringToDate (dateString d) = if Named d then some (86400 * d.dayNumber) else none := by
  have hday := d.day_le_thirtyOne
  have hmonth := d.month_le
  obtain ⟨hd, hdInt⟩ := @stoi_eq_some d.day (by omega) (by omega)
  obtain ⟨hm, hmInt⟩ := @stoi_eq_some d.month (by omega) (by omega)
  unfold dateStringToDate
  rw [separateString_dateString]
  simp only [hd, hm, Option.bind_eq_bind, Option.bind_some]
  by_cases hnamed : Named d
  · obtain ⟨hy, hyInt⟩ := @stoi_eq_some d.year hnamed.1 hnamed.2
    rw [if_pos hnamed, hy]
    simp only [Option.bind_some, hdInt, hmInt, hyInt]
    rw [if_neg (by unfold maximumDaysCount; omega), if_neg (by unfold maximumMonthCount; omega)]
    simp [timegm, Date.dayNumber]
  · have hy : stoi (intDigits d.year) = none := by
      rw [stoi_intDigits, Json.Value.toInt32, if_neg fun h => hnamed ⟨h.1, Int.lt_of_le_sub_one h.2⟩]
    rw [if_neg hnamed, hy]
    rfl

end HoroscopesParser
end Horo
