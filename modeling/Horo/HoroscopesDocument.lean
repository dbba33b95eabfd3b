/-
# Malformed documents of the server

`HoroscopesParserImpl::parse` on every document whose entries have texts for
their type, date and content. A text of jsoncpp is read up to its first NUL.
The callback is called once where the parser does not throw.

Key definitions: `Document`, `IsDateText`, `Delivers`, `Harmless`.
Key theorems: `harmless_iff`, `delivers_iff`.
-/
import Horo.HoroscopesParser

namespace Horo
namespace HoroscopesParser

open Lib Calendar

/-- `(ZodiacTypes) value`. The language does not say what becomes of a number
that is no enumerator; it is not an exception. -/
structure ZodiacCast where
  cast : Int32 → ZodiacTypes
  cast_toInt32 : ∀ z : ZodiacTypes, cast z.toInt32 = z

/-- `parse`, where `zodiac` may be any number. -/
def parseWith (conversion : ZodiacCast) (data : Json.Value) : Option Horoscopes := do
  match ← data.get "result" with
  | .array array =>
    let zodiac ← (← data.get "zodiac").asInt
    let horoscopes ← array.mapM (parseObject (conversion.cast zodiac).toInt32)
    return fun p => pointers horoscopes p.key
  | _ => return Horoscopes.none

/-- An entry is decoded only with the number of a sign. -/
theorem exists_sign_of_parseObject {zodiac : Int32} {object : Json.Value} {r : String × HoroscopeDTO}
    (h : parseObject zodiac object = some r) : ∃ sign : ZodiacTypes, sign.toInt32 = zodiac := by
  simp only [parseObject, Option.bind_eq_bind, Option.bind_eq_some_iff] at h
  obtain ⟨content, -, dateValue, -, dateString, -, date, -, typeValue, -, type, -, horoscope, hdecode, -⟩ := h
  rw [HoroscopeDTO.decode_object (by rfl) (Json.Value.asInt_int _) (by rfl) (by rfl) (by rfl)
    (Json.Value.asInt_int _)] at hdecode
  simp only [Option.bind_eq_bind, Option.bind_eq_some_iff] at hdecode
  obtain ⟨-, -, -, -, -, -, sign, hsign, -⟩ := hdecode
  unfold ZodiacTypes.ofInt32 at hsign
  exact ⟨sign, by simpa using List.find?_some hsign⟩

/-- Where `zodiac` has to be the number of a sign, it is the same parser. -/
theorem parseWith_of_parse (conversion : ZodiacCast) {data : Json.Value} {horoscopes : Horoscopes}
    (h : parse data = some horoscopes) : parseWith conversion data = some horoscopes := by
  unfold parse at h
  unfold parseWith
  rcases hresult : data.get "result" with _ | result
  · rw [hresult] at h
    cases h
  · rw [hresult] at h
    simp only [Option.bind_eq_bind, Option.bind_some] at h ⊢
    cases result with
    | array array =>
      simp only [Option.bind_eq_some_iff] at h ⊢
      obtain ⟨value, hvalue, zodiac, hzodiac, dtos, hdtos, h⟩ := h
      refine ⟨value, hvalue, zodiac, hzodiac, dtos, ?_, h⟩
      rcases array with _ | ⟨object, array⟩
      · rw [List.mapM_nil] at hdtos ⊢
        exact hdtos
      · rw [List.mapM_cons, Option.bind_eq_bind, Option.bind_eq_some_iff] at hdtos
        obtain ⟨r, hobject, hrest⟩ := hdtos
        obtain ⟨sign, rfl⟩ := exists_sign_of_parseObject hobject
        rw [conversion.cast_toInt32, List.mapM_cons, hobject]
        exact hrest
    | _ => exact h

/-! ### The dates -/

/-- A number has no more digits than its text. -/
theorem ofDigitChars_lt : ∀ {ds : List Char} (n : ℕ), (∀ c ∈ ds, c.isDigit = true) →
    Nat.ofDigitChars 10 ds n < 10 ^ ds.length * (n + 1)
  | [], n, _ => by
    rw [Nat.ofDigitChars_nil, List.length_nil]
    omega
  | d :: ds, n, hds => by
    have hrange : 48 ≤ d.toNat ∧ d.toNat ≤ 57 := Char.isDigit_iff_toNat.mp (hds d List.mem_cons_self)
    have hzero : '0'.toNat = 48 := rfl
    have ih := ofDigitChars_lt (10 * n + (d.toNat - '0'.toNat)) fun c hc => hds c (List.mem_cons_of_mem d hc)
    rw [Nat.ofDigitChars_cons]
    calc Nat.ofDigitChars 10 ds (10 * n + (d.toNat - '0'.toNat))
        < 10 ^ ds.length * (10 * n + (d.toNat - '0'.toNat) + 1) := ih
      _ ≤ 10 ^ ds.length * (10 * (n + 1)) := Nat.mul_le_mul_left _ (by omega)
      _ = 10 ^ (d :: ds).length * (n + 1) := by rw [List.length_cons, Nat.pow_succ, Nat.mul_assoc]

/-- Digits of an `int` are read. -/
theorem stoi_part {ds : List Char} (hne : ds ≠ []) (hds : ∀ c ∈ ds, c.isDigit = true)
    (hlt : Nat.ofDigitChars 10 ds 0 < 2 ^ 31) :
    stoi ds = some (Int32.ofInt (Nat.ofDigitChars 10 ds 0)) ∧
      (Int32.ofInt (Nat.ofDigitChars 10 ds 0)).toInt = Nat.ofDigitChars 10 ds 0 := by
  have hrange : Json.Value.InIntRange (Nat.ofDigitChars 10 ds 0) := by
    unfold Json.Value.InIntRange Json.Value.minInt Json.Value.maxInt
    omega
  rw [stoi_digits hne hds, Json.Value.toInt32, if_pos hrange]
  exact ⟨rfl, Int32.toInt_ofInt_of_le (by omega) (by omega)⟩

/-- Three integers `D.M.YYYY`. -/
structure DateText where
  dayPart : List Char
  monthPart : List Char
  yearPart : List Char
  isDigit : ∀ c ∈ dayPart ++ (monthPart ++ yearPart), c.isDigit = true
  day_pos : 1 ≤ Nat.ofDigitChars 10 dayPart 0
  day_le : Nat.ofDigitChars 10 dayPart 0 ≤ 31
  month_pos : 1 ≤ Nat.ofDigitChars 10 monthPart 0
  month_le : Nat.ofDigitChars 10 monthPart 0 ≤ 12
  length_yearPart : yearPart.length = 4

namespace DateText

def text (t : DateText) : List Char := t.dayPart ++ '.' :: (t.monthPart ++ '.' :: t.yearPart)

def day (t : DateText) : ℕ := Nat.ofDigitChars 10 t.dayPart 0
def month (t : DateText) : ℕ := Nat.ofDigitChars 10 t.monthPart 0
def year (t : DateText) : ℕ := Nat.ofDigitChars 10 t.yearPart 0

theorem dayPart_ne_nil (t : DateText) : t.dayPart ≠ [] := fun h => by
  have hpos := t.day_pos
  rw [h, Nat.ofDigitChars_nil] at hpos
  cases hpos

theorem monthPart_ne_nil (t : DateText) : t.monthPart ≠ [] := fun h => by
  have hpos := t.month_pos
  rw [h, Nat.ofDigitChars_nil] at hpos
  cases hpos

theorem yearPart_ne_nil (t : DateText) : t.yearPart ≠ [] := fun h => by
  have hlength := t.length_yearPart
  rw [h] at hlength
  cases hlength

theorem separateString_text (t : DateText) :
    separateString t.text '.' = [t.dayPart, t.monthPart, t.yearPart] := by
  have hdot : ∀ part : List Char, part ⊆ t.dayPart ++ (t.monthPart ++ t.yearPart) → '.' ∉ part :=
    fun part hpart h => by cases t.isDigit _ (hpart h)
  rw [text, separateString_append (hdot _ (by simp)) t.dayPart_ne_nil,
    separateString_append (hdot _ (by simp)) t.monthPart_ne_nil,
    separateString_last (hdot _ (by simp)) t.yearPart_ne_nil]

theorem stoi_dayPart (t : DateText) : stoi t.dayPart = some (Int32.ofInt t.day) ∧
    (Int32.ofInt t.day).toInt = t.day := by
  have hle := t.day_le
  exact stoi_part t.dayPart_ne_nil (fun c hc => t.isDigit c (by simp [hc]))
    (Nat.lt_of_le_of_lt hle (by decide))

theorem stoi_monthPart (t : DateText) : stoi t.monthPart = some (Int32.ofInt t.month) ∧
    (Int32.ofInt t.month).toInt = t.month := by
  have hle := t.month_le
  exact stoi_part t.monthPart_ne_nil (fun c hc => t.isDigit c (by simp [hc]))
    (Nat.lt_of_le_of_lt hle (by decide))

theorem stoi_yearPart (t : DateText) : stoi t.yearPart = some (Int32.ofInt t.year) ∧
    (Int32.ofInt t.year).toInt = t.year := by
  have hdigits : ∀ c ∈ t.yearPart, c.isDigit = true := fun c hc => t.isDigit c (by simp [hc])
  have hlt := ofDigitChars_lt 0 hdigits
  rw [t.length_yearPart] at hlt
  exact stoi_part t.yearPart_ne_nil hdigits (by omega)

end DateText

def IsDateText (s : List Char) : Prop := ∃ t : DateText, t.text = s

/-- The date string does no harm: a day from 1970 on; or a text that is read as
the number 0, because it has not three parts, or has three numbers of which the
first two are out of range or which name 1 January 1970 in another way. -/
inductive Harmless (s : List Char) : Prop
  | date (t : DateText) (htext : t.text = s) (hyear : 1970 ≤ t.year)
  | parts (hparts : (separateString s '.').length ≠ 3)
  | outOfRange {dayPart monthPart yearPart : List Char} {day month year : Int32}
      (hparts : separateString s '.' = [dayPart, monthPart, yearPart]) (hday : stoi dayPart = some day)
      (hmonth : stoi monthPart = some month) (hyear : stoi yearPart = some year)
      (hrange : maximumDaysCount < day.toInt ∨ maximumMonthCount < month.toInt)
  | epoch {dayPart monthPart yearPart : List Char} {day month year : Int32}
      (hparts : separateString s '.' = [dayPart, monthPart, yearPart]) (hday : stoi dayPart = some day)
      (hmonth : stoi monthPart = some month) (hyear : stoi yearPart = some year)
      (hzero : dayNumberOf year.toInt (month.toInt - 1) day.toInt = 0)

/-- What three parts give. -/
theorem dateStringToDate_parts {s dayPart monthPart yearPart : List Char}
    (hparts : separateString s '.' = [dayPart, monthPart, yearPart]) :
    dateStringToDate s = do
      let day ← stoi dayPart
      let month ← stoi monthPart
      let year ← stoi yearPart
      if maximumDaysCount < day.toInt ∨ maximumMonthCount < month.toInt then return 0
      return 86400 * dayNumberOf year.toInt (month.toInt - 1) day.toInt := by
  unfold dateStringToDate
  rw [hparts]
  dsimp only
  rcases stoi dayPart with _ | day
  · rfl
  rcases stoi monthPart with _ | month
  · rfl
  rcases stoi yearPart with _ | year
  · rfl
  have htime : timegm { sec := 0, min := 0, hour := 0, mday := day.toInt, mon := month.toInt - 1,
                        year := year.toInt - 1900, wday := 0, yday := 0, isdst := 0, gmtoff := 0 } =
      86400 * dayNumberOf year.toInt (month.toInt - 1) day.toInt := by
    simp [timegm]
  simp only [Option.bind_eq_bind, Option.bind_some, htime]
  by_cases hday : maximumDaysCount < day.toInt
  · rw [if_pos hday, if_pos (.inl hday)]
  · by_cases hmonth : maximumMonthCount < month.toInt
    · rw [if_neg hday, if_pos hmonth, if_pos (.inr hmonth)]
    · rw [if_neg hday, if_neg hmonth, if_neg (by simp [hday, hmonth])]

theorem dateStringToDate_text (t : DateText) :
    dateStringToDate t.text = some (86400 * dayNumberOf t.year ((t.month : Int) - 1) t.day) := by
  obtain ⟨hday, hdayInt⟩ := t.stoi_dayPart
  obtain ⟨hmonth, hmonthInt⟩ := t.stoi_monthPart
  obtain ⟨hyear, hyearInt⟩ := t.stoi_yearPart
  have hdayLe : (t.day : Int) ≤ 31 := Int.ofNat_le.mpr t.day_le
  have hmonthLe : (t.month : Int) ≤ 12 := Int.ofNat_le.mpr t.month_le
  rw [dateStringToDate_parts t.separateString_text, hday, hmonth, hyear]
  simp only [Option.bind_eq_bind, Option.bind_some, hdayInt, hmonthInt, hyearInt]
  rw [if_neg]
  · rfl
  · unfold maximumDaysCount maximumMonthCount
    omega

/-- A month has at most 31 days, the year has the days left after it. -/
theorem sum_take_monthLengths_le (leap : Bool) : ∀ i < 12,
    ((monthLengths leap).take i).sum + 31 ≤ (monthLengths leap).sum := by
  cases leap <;> decide

/-- The day is one of 1970 or later as the year is. -/
theorem dayNumberOf_nonneg_iff (t : DateText) :
    0 ≤ dayNumberOf t.year ((t.month : Int) - 1) t.day ↔ 1970 ≤ t.year := by
  have hdayPos : 1 ≤ t.day := t.day_pos
  have hdayLe : t.day ≤ 31 := t.day_le
  have hmonthPos : 1 ≤ t.month := t.month_pos
  have hmonthLe : t.month ≤ 12 := t.month_le
  have hepoch : firstOfYear 1970 = 0 := rfl
  have hdiv : ((t.month : Int) - 1) / 12 = 0 := by omega
  have hmod : (((t.month : Int) - 1) % 12).toNat = t.month - 1 := by omega
  have hsum := sum_take_monthLengths_le (isLeap t.year) (t.month - 1) (by omega)
  have hnext := firstOfYear_succ t.year
  unfold dayNumberOf
  rw [hdiv, hmod, Int.add_zero]
  constructor
  · intro h
    by_contra hyear
    have hmono := firstOfYear_mono (show (t.year : Int) + 1 ≤ 1970 by omega)
    omega
  · intro hyear
    have hmono := firstOfYear_mono (show (1970 : Int) ≤ t.year by omega)
    omega

/-- A date is a number of seconds of a year that is an `int`. -/
theorem dateStringToDate_lt {s : List Char} {i : Int} (h : dateStringToDate s = some i) : i < 2 ^ 63 := by
  by_cases hthree : ∃ dayPart monthPart yearPart, separateString s '.' = [dayPart, monthPart, yearPart]
  · obtain ⟨dayPart, monthPart, yearPart, hparts⟩ := hthree
    rw [dateStringToDate_parts hparts] at h
    simp only [Option.bind_eq_bind, Option.bind_eq_some_iff] at h
    obtain ⟨day, -, month, -, year, -, h⟩ := h
    split at h
    · have hi : 0 = i := Option.some.inj h
      omega
    · rename_i hrange
      have hi : 86400 * dayNumberOf year.toInt (month.toInt - 1) day.toInt = i := Option.some.inj h
      have hyear := year.toInt_lt
      have hmonths : ((monthLengths (isLeap (year.toInt + (month.toInt - 1) / 12))).take
          ((month.toInt - 1) % 12).toNat).sum ≤ 366 := by
        have hsum := sum_take_add_getD_le (monthLengths (isLeap (year.toInt + (month.toInt - 1) / 12)))
          ((month.toInt - 1) % 12).toNat
        have htotal : ∀ leap : Bool, (monthLengths leap).sum ≤ 366 := by decide
        have hle := htotal (isLeap (year.toInt + (month.toInt - 1) / 12))
        omega
      unfold maximumDaysCount maximumMonthCount at hrange
      have hmono := firstOfYear_mono (show year.toInt + (month.toInt - 1) / 12 ≤ 2 ^ 31 by omega)
      have hlast : firstOfYear (2 ^ 31) ≤ 2 ^ 40 := by decide
      unfold dayNumberOf at hi
      omega
  · have hi : (0 : Int) = i := by
      rw [dateStringToDate] at h
      split at h
      · exact absurd ⟨_, _, _, ‹_›⟩ hthree
      · exact Option.some.inj h
    omega

/-- **A date string does no harm if and only if** it is read, as no time before
1970, and as 0 if it is no `D.M.YYYY`. -/
theorem harmless_iff (s : List Char) :
    Harmless s ↔ ∃ i, dateStringToDate s = some i ∧ 0 ≤ i ∧ (¬ IsDateText s → i = 0) := by
  constructor
  · rintro (⟨t, rfl, hyear⟩ | hparts | ⟨hparts, hday, hmonth, hyear, hrange⟩ |
      ⟨hparts, hday, hmonth, hyear, hzero⟩)
    · have hnonneg := (dayNumberOf_nonneg_iff t).mpr hyear
      exact ⟨_, dateStringToDate_text t, by omega, fun h => absurd ⟨t, rfl⟩ h⟩
    · refine ⟨0, ?_, le_refl 0, fun _ => rfl⟩
      rw [dateStringToDate]
      split
      · rename_i heq
        exact absurd (by rw [heq]; rfl) hparts
      · rfl
    · refine ⟨0, ?_, le_refl 0, fun _ => rfl⟩
      rw [dateStringToDate_parts hparts, hday, hmonth, hyear]
      simp [hrange]
    · refine ⟨0, ?_, le_refl 0, fun _ => rfl⟩
      rw [dateStringToDate_parts hparts, hday, hmonth, hyear]
      simp [hzero]
  · rintro ⟨i, hread, hnonneg, hkept⟩
    by_cases htext : IsDateText s
    · obtain ⟨t, rfl⟩ := htext
      have hi := Option.some.inj ((dateStringToDate_text t).symm.trans hread)
      exact .date t rfl ((dayNumberOf_nonneg_iff t).mp (by omega))
    · by_cases hthree : ∃ dayPart monthPart yearPart, separateString s '.' = [dayPart, monthPart, yearPart]
      · obtain ⟨dayPart, monthPart, yearPart, hparts⟩ := hthree
        rw [dateStringToDate_parts hparts] at hread
        simp only [Option.bind_eq_bind, Option.bind_eq_some_iff] at hread
        obtain ⟨day, hday, month, hmonth, year, hyear, hread⟩ := hread
        by_cases hrange : maximumDaysCount < day.toInt ∨ maximumMonthCount < month.toInt
        · exact .outOfRange hparts hday hmonth hyear hrange
        · rw [if_neg hrange] at hread
          have hi : 86400 * dayNumberOf year.toInt (month.toInt - 1) day.toInt = i := Option.some.inj hread
          have hzero := hkept htext
          exact .epoch hparts hday hmonth hyear (by omega)
      · refine .parts fun hlength => hthree ?_
        obtain ⟨a, b, c, h⟩ := List.length_eq_three.mp hlength
        exact ⟨a, b, c, h⟩

/-! ### The document -/

/-- An object of the array. -/
structure TextEntry where
  members : Json.Members
  typeText : String
  dateText : String
  contentText : String
  type_eq : members.lookup "type" = some (.string typeText)
  date_eq : members.lookup "date" = some (.string dateText)
  content_eq : members.lookup "content" = some (.string contentText)

namespace TextEntry

def value (e : TextEntry) : Json.Value := .object e.members

def type (e : TextEntry) : String := Json.cstr e.typeText
def date (e : TextEntry) : List Char := (Json.cstr e.dateText).toList
def content (e : TextEntry) : String := Json.cstr e.contentText

/-- The horoscope of an entry. -/
def horoscope (e : TextEntry) (sign : ZodiacTypes) (date : UInt64) : HoroscopeDTO :=
  { zodiac := sign, type := (types.lookup e.type).getD .day, content := e.content, date := date }

end TextEntry

/-- A JSON object; without entries, its `result` is absent or no array. -/
structure Document where
  members : Json.Members
  entries : Option (List TextEntry)
  result_eq : match entries with
    | none => ∀ xs, members.lookup "result" ≠ some (.array xs)
    | some entries => members.lookup "result" = some (.array (entries.map TextEntry.value))

namespace Document

def value (d : Document) : Json.Value := .object d.members

/-- `data["zodiac"]`. -/
def zodiac (d : Document) : Json.Value := (d.members.lookup "zodiac").getD .null

end Document

/-- What the parser makes of an entry is its horoscope, with the date 0 if its
date string is no `D.M.YYYY`. -/
def Gets (sign : ZodiacTypes) (e : TextEntry) (h : HoroscopeDTO) : Prop :=
  parseObject sign.toInt32 e.value = some (e.type, h) ∧ h = e.horoscope sign h.date ∧
    (¬ IsDateText e.date → h.date = 0)

/-- The parser does not throw, every entry gets its horoscope, and the callback
that of the last entry of each type. -/
def Delivers (conversion : ZodiacCast) (d : Document) : Prop :=
  ∃ horoscopes, parseWith conversion d.value = some horoscopes ∧
    match d.entries with
    | none => horoscopes = Horoscopes.none
    | some entries => ∃ sign, (∀ e ∈ entries, ∃ h, Gets sign e h) ∧
      ∀ (p : Period) (h : HoroscopeDTO), horoscopes p = some h ↔
        ∃ e, entries.reverse.find? (fun e => e.type == p.key) = some e ∧ Gets sign e h

theorem parseObject_value (sign : ZodiacTypes) (e : TextEntry) :
    parseObject sign.toInt32 e.value = (dateStringToDate e.date).bind fun date =>
      if 0 ≤ date then some (e.type, e.horoscope sign (UInt64.ofInt date)) else none := by
  have hkeys : ∀ key ∈ ["content", "date", "type"], Json.cstr key = key := by decide
  simp only [List.mem_cons, List.not_mem_nil, or_false, forall_eq_or_imp, forall_eq] at hkeys
  obtain ⟨hcontent, hdate, htype⟩ := hkeys
  have hstring : ∀ s : String, (Json.Value.string s).asString = some (Json.cstr s) := fun s => rfl
  rw [parseObject, TextEntry.value, Json.Value.get_object hcontent e.content_eq,
    Json.Value.get_object hdate e.date_eq, Json.Value.get_object htype e.type_eq]
  simp only [Option.bind_eq_bind, Option.bind_some, hstring]
  rw [← TextEntry.date, ← TextEntry.type]
  rcases dateStringToDate e.date with _ | date
  · rfl
  · rw [Option.bind_some, Option.bind_some, HoroscopeDTO.decode_object (by rfl) (Json.Value.asInt_int _)
      (by rfl) (by rfl) (by rfl) (Json.Value.asInt_int _)]
    simp only [HoroscopeType.ofInt32_toInt32, ZodiacTypes.ofInt32_toInt32, hstring, Option.bind_eq_bind,
      Option.bind_some, Json.Value.asUInt64]
    by_cases hnonneg : 0 ≤ date
    · simp [hnonneg, TextEntry.horoscope, TextEntry.content]
    · simp [hnonneg]

/-- **An entry gets its horoscope if and only if its date does no harm.** -/
theorem exists_gets_iff (sign : ZodiacTypes) (e : TextEntry) : (∃ h, Gets sign e h) ↔ Harmless e.date := by
  rw [harmless_iff]
  unfold Gets
  rw [parseObject_value]
  constructor
  · rintro ⟨h, hparse, -, hkept⟩
    obtain ⟨i, hread, hi⟩ := Option.bind_eq_some_iff.mp hparse
    have hlt := dateStringToDate_lt hread
    by_cases hnonneg : 0 ≤ i
    · rw [if_pos hnonneg] at hi
      have hh : e.horoscope sign (UInt64.ofInt i) = h := (Prod.mk.inj (Option.some.inj hi)).2
      refine ⟨i, hread, hnonneg, fun htext => ?_⟩
      have hdate : UInt64.ofInt i = 0 := by rw [← hkept htext, ← hh, TextEntry.horoscope]
      have hnat := Json.Value.toNat_ofInt i
      rw [hdate, Int.emod_eq_of_lt hnonneg (by omega)] at hnat
      have hzero : (0 : UInt64).toNat = 0 := rfl
      omega
    · rw [if_neg hnonneg] at hi
      cases hi
  · rintro ⟨i, hread, hnonneg, hkept⟩
    refine ⟨e.horoscope sign (UInt64.ofInt i), ?_, rfl, fun htext => ?_⟩
    · rw [hread, Option.bind_some, if_pos hnonneg]
    · rw [hkept htext]
      rfl

theorem gets_unique {sign : ZodiacTypes} {e : TextEntry} {h h' : HoroscopeDTO} (hget : Gets sign e h)
    (hget' : Gets sign e h') : h = h' :=
  (Prod.mk.inj (Option.some.inj (hget.1.symm.trans hget'.1))).2

/-- The loop over the entries. -/
theorem exists_mapM_parseObject {sign : ZodiacTypes} : ∀ {entries : List TextEntry},
    (∀ e ∈ entries, ∃ h, Gets sign e h) →
    ∃ gets : TextEntry → HoroscopeDTO, (∀ e ∈ entries, Gets sign e (gets e)) ∧
      (entries.map TextEntry.value).mapM (parseObject sign.toInt32) =
        some (entries.map fun e => (e.type, gets e)) := by
  intro entries h
  have : Nonempty HoroscopeDTO := ⟨.new⟩
  choose! gets hgets using h
  refine ⟨gets, hgets, ?_⟩
  induction entries with
  | nil => rfl
  | cons e entries ih =>
    have hhead := (hgets e List.mem_cons_self).1
    have htail := ih fun e he => hgets e (List.mem_cons_of_mem _ he)
    rw [List.map_cons, List.mapM_cons, hhead, htail]
    rfl

theorem lookup_map (gets : TextEntry → HoroscopeDTO) (key : String) : ∀ entries : List TextEntry,
    (entries.map fun e => (e.type, gets e)).lookup key =
      (entries.find? fun e => e.type == key).map gets
  | [] => rfl
  | e :: entries => by
    rw [List.map_cons, List.lookup_cons, lookup_map gets key entries, List.find?_cons, Bool.beq_comm]
    cases e.type == key <;> rfl

/-- **The parser survives a document if and only if** its sign is a number and
no date string does harm, where there is an array. -/
theorem delivers_iff (conversion : ZodiacCast) (d : Document) :
    Delivers conversion d ↔
      ∀ entries ∈ d.entries, d.zodiac.asInt.isSome ∧ ∀ e ∈ entries, Harmless e.date := by
  have hkeys : ∀ key ∈ ["result", "zodiac"], Json.cstr key = key := by decide
  simp only [List.mem_cons, List.not_mem_nil, or_false, forall_eq_or_imp, forall_eq] at hkeys
  obtain ⟨hresultKey, hzodiacKey⟩ := hkeys
  obtain ⟨members, entries, hresult⟩ := d
  have hzodiac : (Json.Value.object members).get "zodiac" = some ((members.lookup "zodiac").getD .null) := by
    rw [Json.Value.get, hzodiacKey]
  unfold Delivers parseWith Document.value Document.zodiac
  rcases entries with _ | entries
  · have hget : (Json.Value.object members).get "result" = some ((members.lookup "result").getD .null) := by
      rw [Json.Value.get, hresultKey]
    have hno : ∀ xs, (members.lookup "result").getD .null ≠ .array xs := by
      intro xs h
      rcases hlookup : members.lookup "result" with _ | value
      · rw [hlookup] at h
        cases h
      · rw [hlookup, Option.getD_some] at h
        exact hresult xs (by rw [hlookup, h])
    refine iff_of_true ⟨Horoscopes.none, ?_, rfl⟩ (by simp)
    rw [hget, Option.bind_eq_bind, Option.bind_some]
    generalize (members.lookup "result").getD .null = value at hno
    cases value <;> first | rfl | exact absurd rfl (hno _)
  · rw [Json.Value.get_object hresultKey hresult, hzodiac]
    simp only [Option.bind_eq_bind, Option.bind_some, Option.mem_def, Option.some.injEq, forall_eq']
    rcases ((members.lookup "zodiac").getD .null).asInt with _ | zodiac
    · simp
    · simp only [Option.bind_some, Option.isSome_some, true_and]
      constructor
      · rintro ⟨_, -, sign, hgets, -⟩ e he
        exact (exists_gets_iff sign e).mp (hgets e he)
      · intro hharmless
        have hall : ∀ e ∈ entries, ∃ h, Gets (conversion.cast zodiac) e h :=
          fun e he => (exists_gets_iff _ e).mpr (hharmless e he)
        obtain ⟨gets, hgets, hmapM⟩ := exists_mapM_parseObject hall
        rw [hmapM, Option.bind_some]
        refine ⟨_, rfl, conversion.cast zodiac, hall, fun p h => ?_⟩
        rw [pointers, ← List.map_reverse, lookup_map, Option.map_eq_some_iff]
        constructor
        · rintro ⟨e, hfind, rfl⟩
          exact ⟨e, hfind, hgets e (List.mem_reverse.mp (List.mem_of_find?_eq_some hfind))⟩
        · rintro ⟨e, hfind, hget⟩
          have he := List.mem_reverse.mp (List.mem_of_find?_eq_some hfind)
          exact ⟨e, hfind, gets_unique (hgets e he) hget⟩

/-- Numbers that are no enumerator become `Unknown`. -/
def ZodiacCast.toUnknown : ZodiacCast where
  cast i := (ZodiacTypes.ofInt32 i).getD .unknown
  cast_toInt32 z := by rw [ZodiacTypes.ofInt32_toInt32, Option.getD_some]

/-- An entry of today with a date string of letters. -/
def letters : TextEntry where
  members := [("content", .string "x"), ("date", .string "a.b.c"), ("type", .string "today")]
  typeText := "today"
  dateText := "a.b.c"
  contentText := "x"
  type_eq := rfl
  date_eq := rfl
  content_eq := rfl

/-- A document of aquarius with that entry. -/
def lettersDocument : Document where
  members := [("result", .array [letters.value]), ("zodiac", .int 1)]
  entries := some [letters]
  result_eq := rfl

/-- The number of the day is no number. -/
theorem not_delivers_letters : parseWith .toUnknown lettersDocument.value = none ∧
    ¬ Delivers .toUnknown lettersDocument := by
  have hthrows : parseWith .toUnknown lettersDocument.value = none := rfl
  refine ⟨hthrows, fun ⟨horoscopes, hparse, _⟩ => ?_⟩
  rw [hthrows] at hparse
  cases hparse

end HoroscopesParser
end Horo
