/-
# The dates in the texts of the predictions

`dateStringFromPredictionText` of `src/server/common/common.js` and
`writeHoroscope` of `src/server/common/horostorage.js`: a prediction is stored
under the date that its text begins with.

* `dateStringFromPredictionText_header`: the date of a header is read, whatever
  text follows it.
* `writes_where_it_is_read`: a prediction is written to the document that the
  builder of the application's documents reads.
-/
import Horo.Lib.EcmaString
import Horo.Server.TtyDates

namespace Horo
namespace Server

open Lib Calendar EcmaDate EcmaString

/-! ### The program -/

/-- The names `monthIndexFromName` knows. -/
def monthNames : List (List Char) :=
  ["january".toList, "february".toList, "march".toList, "april".toList, "may".toList, "june".toList,
    "july".toList, "august".toList, "september".toList, "october".toList, "november".toList,
    "december".toList]

/-- The abbreviations `monthIndexFromAbbreviature` knows. -/
def monthAbbreviations : List (List Char) :=
  ["jan".toList, "feb".toList, "mar".toList, "apr".toList, "may".toList, "jun".toList,
    "jul".toList, "aug".toList, "sep".toList, "oct".toList, "nov".toList, "dec".toList]

/-- The `switch` over the lower case of a name; 0 if no case is its. No
character but an ASCII letter has a letter of these names as its lower case. -/
def monthIndex (cases : List (List Char)) (name : List Char) : ℕ :=
  match cases.idxOf? (name.map Char.toLower) with
  | some i => i + 1
  | none => 0

def monthIndexFromAbbreviature (abbreviation : List Char) : ℕ :=
  monthIndex monthAbbreviations abbreviation

def monthIndexFromName (name : List Char) : ℕ := monthIndex monthNames name

def getDayDateString (source : List Char) : List Char :=
  match source.splitOn ' ' with
  | [part, dayNumber, year] =>
    let monthIndex := monthIndexFromAbbreviature part
    if monthIndex = 0 then []
    else
      let dayNumber :=
        match indexOf dayNumber ',' 0 with
        | some index => dayNumber.take index
        | none => dayNumber
      dayNumber ++ '.' :: (intDigits monthIndex ++ '.' :: year)
  | _ => []

def getMonthDateString (source : List Char) : List Char :=
  match source.splitOn ' ' with
  | [part, year] =>
    let monthIndex := monthIndexFromName part
    if monthIndex = 0 then [] else '1' :: '.' :: (intDigits monthIndex ++ '.' :: year)
  | _ => []

/-- `yearDate` is what `dateStringFromType` gives for the year. -/
def dateStringFromPredictionText (prediction : List Char) (tabsType : TabsType)
    (yearDate : List Char) : List Char :=
  match tabsType with
  | .yesterday | .today | .tomorrow | .weekly =>
    match indexOf prediction '-' 0 with
    | some index => getDayDateString (prediction.take (index - 1))
    | none => []
  | .monthly =>
    let start :=
      match indexOf prediction ' ' 0 with
      | some index => index + 1
      | none => 0
    match indexOf prediction ' ' start with
    | some index => getMonthDateString (trim (prediction.take index))
    | none => []
  | .year => yearDate

/-- What `writeHoroscope` hands to `document.set`, under its path; `none` where
it exits the process. -/
def writeHoroscope (zodiacName : String) (tabsType : TabsType) (horoscope yearDate : List Char) :
    Option (String × Document) :=
  let horoType := horoTypeByTabsType tabsType
  let dateString := dateStringFromPredictionText horoscope tabsType yearDate
  if dateString = [] then none
  else some ("storage/" ++ horoType ++ "/" ++ zodiacName ++ "/" ++ String.ofList dateString,
    ⟨some (String.ofList horoscope)⟩)

/-! ### The headers of the predictions -/

/-- The English name of the month, in lower case. -/
def monthName (d : Date) : List Char := monthNames.getD (d.month - 1) []

/-- What a prediction for `d` begins with: `Mon D, YYYY - `, or `Month YYYY `
for a month, in any letter case. -/
inductive Header (d : Date) : TabsType → List Char → Prop
  | day {t : TabsType} {name : List Char} {year : ℕ} :
      t ∈ [TabsType.yesterday, .today, .tomorrow, .weekly] →
      name.map Char.toLower = (monthName d).take 3 → d.year = year →
      Header d t (name ++ ' ' :: (intDigits d.day ++ ',' :: ' ' ::
        (intDigits year ++ ' ' :: '-' :: [' '])))
  | month {name : List Char} {year : ℕ} :
      name.map Char.toLower = monthName d → d.day = 1 → d.year = year →
      Header d .monthly (name ++ ' ' :: (intDigits year ++ [' ']))

theorem month_sub_one_lt (d : Date) : d.month - 1 < 12 := by
  have hle := d.month_le
  have hpos := d.month_pos
  omega

theorem monthName_mem (d : Date) : monthName d ∈ monthNames := by
  have hlt : d.month - 1 < monthNames.length := month_sub_one_lt d
  rw [monthName, ← List.getElem_eq_getD (h := hlt)]
  exact List.getElem_mem hlt

/-- The names consist of letters. -/
theorem letter_of_mem {c : Char} {d : Date} (h : c ∈ monthName d) :
    97 ≤ c.toNat ∧ c.toNat ≤ 122 := by
  have hletters : ∀ c ∈ monthNames.flatten, 97 ≤ c.toNat ∧ c.toNat ≤ 122 :=
    List.all_iff_forall_prop.mp (by decide +kernel)
  exact hletters c (List.mem_flatten_of_mem (monthName_mem d) h)

theorem notMem_of_map_toLower {name : List Char} {d : Date} {c : Char}
    (hc : c ∈ [' ', '-', ',']) (h : name.map Char.toLower <+: monthName d) : c ∉ name := by
  intro hmem
  have hseparators : ∀ c ∈ [' ', '-', ','], Char.toLower c = c ∧ c.toNat < 97 :=
    List.all_iff_forall_prop.mp (by decide)
  obtain ⟨hlower, hlt⟩ := hseparators c hc
  have hname : c ∈ monthName d := by
    apply h.subset
    rw [← hlower]
    exact List.mem_map_of_mem hmem
  have hletter := letter_of_mem hname
  omega

/-- They are not trimmed. -/
theorem isSpace_of_mem {name : List Char} {d : Date} {c : Char} (hc : c ∈ name)
    (h : name.map Char.toLower = monthName d) : isSpace c = false := by
  have hlower : c.toLower ∈ monthName d := h ▸ List.mem_map_of_mem hc
  obtain ⟨hlow, hhigh⟩ := letter_of_mem hlower
  obtain ⟨hprint, hprint'⟩ := print_of_toLower hlow hhigh
  exact isSpace_of_print hprint hprint'

theorem monthIndexFromName_eq {name : List Char} {d : Date} (h : name.map Char.toLower = monthName d) :
    monthIndexFromName name = d.month := by
  have hall : ∀ i < 12, monthNames.idxOf? (monthNames.getD i []) = some i := by decide +kernel
  rw [monthIndexFromName, monthIndex, h, monthName, hall _ (month_sub_one_lt d)]
  exact Nat.sub_add_cancel d.month_pos

theorem monthIndexFromAbbreviature_eq {name : List Char} {d : Date}
    (h : name.map Char.toLower = (monthName d).take 3) : monthIndexFromAbbreviature name = d.month := by
  have hall : ∀ i < 12, monthAbbreviations.idxOf? ((monthNames.getD i []).take 3) = some i := by
    decide +kernel
  rw [monthIndexFromAbbreviature, monthIndex, h, monthName, hall _ (month_sub_one_lt d)]
  exact Nat.sub_add_cancel d.month_pos

theorem ne_nil_of_monthName {name : List Char} {d : Date} (h : name.map Char.toLower = monthName d) :
    name ≠ [] := by
  rintro rfl
  have hall : ∀ name ∈ monthNames, name ≠ [] := by decide
  exact hall _ (monthName_mem d) h.symm

/-- A number is not cut by what stands around it. -/
theorem notMem_intDigits {c : Char} (hc : c ∈ [' ', ',']) (i : Int) : c ∉ intDigits i := by
  intro h
  simp only [List.mem_cons, List.not_mem_nil, or_false] at hc
  rcases hc with rfl | rfl <;> rcases mem_intDigits h with h | h <;> cases h

theorem isSpace_of_mem_intDigits {n : ℕ} {c : Char} (h : c ∈ intDigits n) : isSpace c = false := by
  rw [intDigits, if_neg (by omega)] at h
  have hdigit := isDigit_of_mem_toDigits h
  rw [Char.isDigit, Bool.and_eq_true, decide_eq_true_eq, decide_eq_true_eq] at hdigit
  have hlow : 48 ≤ c.toNat := UInt32.le_iff_toNat_le.mp hdigit.1
  have hhigh : c.toNat ≤ 57 := UInt32.le_iff_toNat_le.mp hdigit.2
  exact isSpace_of_print (by omega) (by omega)

theorem dash_notMem_intDigits (n : ℕ) : '-' ∉ intDigits n := by
  intro h
  rw [intDigits, if_neg (by omega)] at h
  exact absurd (isDigit_of_mem_toDigits h) (by decide)

theorem getDayDateString_header {name : List Char} {d : Date} {year : ℕ}
    (hname : name.map Char.toLower = (monthName d).take 3) (hyear : d.year = year) :
    getDayDateString (name ++ ' ' :: (intDigits d.day ++ ',' :: ' ' :: intDigits year)) =
      HoroscopesParser.dateString d := by
  have hprefix : name.map Char.toLower <+: monthName d := hname ▸ List.take_prefix _ _
  have hsplit : (name ++ ' ' :: (intDigits d.day ++ ',' :: ' ' :: intDigits year)).splitOn ' ' =
      [name, intDigits d.day ++ [','], intDigits year] := by
    have hday : ' ' ∉ intDigits d.day ++ [','] := by
      simp [notMem_intDigits (c := ' ') (by decide)]
    have hcomma : intDigits d.day ++ ',' :: ' ' :: intDigits year =
        (intDigits d.day ++ [',']) ++ ' ' :: intDigits year := by simp
    rw [List.splitOn_append_cons_self_of_not_mem (notMem_of_map_toLower (by decide) hprefix), hcomma,
      List.splitOn_append_cons_self_of_not_mem hday,
      List.splitOn_eq_singleton (notMem_intDigits (by decide) _)]
  have hindex : indexOf (intDigits d.day ++ [',']) ',' 0 = some (intDigits d.day).length :=
    indexOf_append (notMem_intDigits (by decide) _) []
  have hmonth : monthIndexFromAbbreviature name = d.month := monthIndexFromAbbreviature_eq hname
  have hpos := d.month_pos
  rw [getDayDateString, hsplit]
  simp only [hmonth, hindex, List.take_left]
  rw [if_neg (by omega), HoroscopesParser.dateString, hyear]

theorem getMonthDateString_header {name : List Char} {d : Date} {year : ℕ}
    (hname : name.map Char.toLower = monthName d) (hday : d.day = 1) (hyear : d.year = year) :
    getMonthDateString (name ++ ' ' :: intDigits year) = HoroscopesParser.dateString d := by
  have hsplit : (name ++ ' ' :: intDigits year).splitOn ' ' = [name, intDigits year] := by
    have hprefix : name.map Char.toLower <+: monthName d := by rw [hname]
    rw [List.splitOn_append_cons_self_of_not_mem (notMem_of_map_toLower (by decide) hprefix),
      List.splitOn_eq_singleton (notMem_intDigits (by decide) _)]
  have hmonth : monthIndexFromName name = d.month := monthIndexFromName_eq hname
  have hpos := d.month_pos
  have hone : intDigits 1 = ['1'] := by decide
  rw [getMonthDateString, hsplit]
  simp only [hmonth]
  rw [if_neg (by omega), HoroscopesParser.dateString, hyear, hday, Nat.cast_one, hone]
  rfl

/-- What stands before the blank and the first dash is read. -/
theorem dateStringFromPredictionText_of_dash {t : TabsType}
    (ht : t ∈ [TabsType.yesterday, .today, .tomorrow, .weekly]) {raw : List Char}
    (hdash : '-' ∉ raw) (rest yearDate : List Char) :
    dateStringFromPredictionText (raw ++ ' ' :: '-' :: rest) t yearDate = getDayDateString raw := by
  have htext : raw ++ ' ' :: '-' :: rest = (raw ++ [' ']) ++ '-' :: rest := by
    rw [List.append_assoc, List.singleton_append]
  have hindex : indexOf (raw ++ ' ' :: '-' :: rest) '-' 0 = some (raw.length + 1) := by
    have hdash' : '-' ∉ raw ++ [' '] := by simp [hdash]
    rw [htext, indexOf_append hdash', List.length_append, List.length_singleton]
  have htake : (raw ++ ' ' :: '-' :: rest).take (raw.length + 1 - 1) = raw := by
    rw [Nat.add_sub_cancel, List.take_left]
  simp only [List.mem_cons, List.not_mem_nil, or_false] at ht
  rcases ht with rfl | rfl | rfl | rfl <;> simp only [dateStringFromPredictionText, hindex, htake]

/-- What stands before the second blank is read, and it is not trimmed. -/
theorem dateStringFromPredictionText_of_blanks {name number : List Char} (hname : ' ' ∉ name)
    (hnumber : ' ' ∉ number) (htrim : trim (name ++ ' ' :: number) = name ++ ' ' :: number)
    (rest yearDate : List Char) :
    dateStringFromPredictionText (name ++ ' ' :: (number ++ ' ' :: rest)) .monthly yearDate =
      getMonthDateString (name ++ ' ' :: number) := by
  have hfirst : indexOf (name ++ ' ' :: (number ++ ' ' :: rest)) ' ' 0 = some name.length :=
    indexOf_append hname _
  have hsecond : indexOf (name ++ ' ' :: (number ++ ' ' :: rest)) ' ' (name.length + 1) =
      some (name ++ ' ' :: number).length := by
    have hstart := indexOf_start hnumber (name ++ [' ']) rest
    rw [List.length_append, List.length_singleton, List.append_assoc, List.singleton_append] at hstart
    rw [hstart, List.length_append, List.length_cons]
    congr 1
    omega
  have htake : (name ++ ' ' :: (number ++ ' ' :: rest)).take (name ++ ' ' :: number).length =
      name ++ ' ' :: number := by
    have hassoc : name ++ ' ' :: (number ++ ' ' :: rest) = (name ++ ' ' :: number) ++ ' ' :: rest := by
      rw [List.append_assoc, List.cons_append]
    rw [hassoc, List.take_left]
  rw [dateStringFromPredictionText]
  simp only [hfirst, hsecond, htake, htrim]

/-- A month and a year begin and end with what is no white space. -/
theorem trim_month {name : List Char} {d : Date} (hname : name.map Char.toLower = monthName d)
    (year : ℕ) : trim (name ++ ' ' :: intDigits year) = name ++ ' ' :: intDigits year := by
  apply trim_eq_self
  · intro c hc
    obtain ⟨c', name', rfl⟩ := List.exists_cons_of_ne_nil (ne_nil_of_monthName hname)
    obtain rfl : c' = c := by simpa using hc
    exact isSpace_of_mem List.mem_cons_self hname
  · intro c hc
    have hassoc : name ++ ' ' :: intDigits year = (name ++ [' ']) ++ intDigits year := by simp
    rw [hassoc, List.getLast?_append, List.getLast?_eq_some_getLast (intDigits_ne_nil _)] at hc
    obtain rfl := Option.some.inj hc
    exact isSpace_of_mem_intDigits (List.getLast_mem _)

/-- **The date of the header is read**, whatever follows it. -/
theorem dateStringFromPredictionText_header {d : Date} {t : TabsType} {header : List Char}
    (h : Header d t header) (rest yearDate : List Char) :
    dateStringFromPredictionText (header ++ rest) t yearDate = HoroscopesParser.dateString d := by
  cases h with
  | @day _ name year ht hname hyear =>
    have hprefix : name.map Char.toLower <+: monthName d := hname ▸ List.take_prefix _ _
    have hdash : '-' ∉ name ++ ' ' :: (intDigits d.day ++ ',' :: ' ' :: intDigits year) := by
      simp [notMem_of_map_toLower (c := '-') (by decide) hprefix, dash_notMem_intDigits]
    calc dateStringFromPredictionText (name ++ ' ' :: (intDigits d.day ++ ',' :: ' ' ::
          (intDigits year ++ ' ' :: '-' :: [' '])) ++ rest) t yearDate
        = dateStringFromPredictionText ((name ++ ' ' :: (intDigits d.day ++ ',' :: ' ' ::
            intDigits year)) ++ ' ' :: '-' :: ' ' :: rest) t yearDate := by simp
      _ = getDayDateString (name ++ ' ' :: (intDigits d.day ++ ',' :: ' ' :: intDigits year)) :=
          dateStringFromPredictionText_of_dash ht hdash _ _
      _ = HoroscopesParser.dateString d := getDayDateString_header hname hyear
  | @month name year hname hday hyear =>
    have hprefix : name.map Char.toLower <+: monthName d := by rw [hname]
    calc dateStringFromPredictionText (name ++ ' ' :: (intDigits year ++ [' ']) ++ rest) .monthly
          yearDate
        = dateStringFromPredictionText (name ++ ' ' :: (intDigits year ++ ' ' :: rest)) .monthly
            yearDate := by simp
      _ = getMonthDateString (name ++ ' ' :: intDigits year) :=
          dateStringFromPredictionText_of_blanks (notMem_of_map_toLower (by decide) hprefix)
            (notMem_intDigits (by decide) _) (trim_month hname year) _ _
      _ = HoroscopesParser.dateString d := getMonthDateString_header hname hday hyear

/-! ### The theorem -/

/-- **The writer and the reader of a prediction use one path.** A prediction
whose text begins with the header of a day is written to the document that is
read for its tab where the clock of the server names that day. -/
theorem writes_where_it_is_read {d : Date} {t : TabsType} {header rest text : List Char}
    (h : Header d t header) (htext : trim text = header ++ rest) (yearDate : List Char) (z : Sign)
    {offset : Int} {readings : Readings}
    (hdate : localDate offset (dateFromType offset (readings t).1 (readings t).2 t) = d) (s : State) :
    ∃ path, writeHoroscope z.name t (trim text) yearDate =
        some (path, ⟨some (String.ofList (trim text))⟩) ∧
      (requestPredictionsForZodiac z (datesAt offset readings) s).reads z t = some path := by
  have ht : t ∈ types := by
    cases h with
    | day ht _ _ =>
      have hall : ∀ t ∈ [TabsType.yesterday, .today, .tomorrow, .weekly], t ∈ types := by decide
      exact hall t ht
    | month _ _ _ => decide
  have hne : HoroscopesParser.dateString d ≠ [] := by simp [HoroscopesParser.dateString]
  have hdateString : datesAt offset readings t = String.ofList (HoroscopesParser.dateString d) := by
    rw [datesAt, dateStringFromType, dateToDateString_eq, hdate]
  refine ⟨storagePath z t (String.ofList (HoroscopesParser.dateString d)), ?_, ?_⟩
  · rw [writeHoroscope, htext, dateStringFromPredictionText_header h, if_neg hne]
    rfl
  · obtain ⟨_, _, _, hreads⟩ := startTabs_spec z (datesAt offset readings) types
      { s with globals := { s.globals with dictionary := fun _ => none, types := types } }
    rw [requestPredictionsForZodiac, hreads, if_pos ⟨rfl, ht⟩, hdateString]

/-- A prediction for 2 January 2018, with dashes and commas. -/
def prediction : List Char := " JaN 2, 2018 - Slow, but well-advised - today. ".toList

theorem prediction_header :
    Header (ofDayNumber 17533) .today "JaN 2, 2018 - ".toList :=
  have h := @Header.day (ofDayNumber 17533) .today "JaN".toList 2018 (by decide) (by decide +kernel)
    (by decide +kernel)
  (by decide +kernel : "JaN".toList ++ ' ' :: (intDigits (ofDayNumber 17533).day ++ ',' :: ' ' ::
    (intDigits (2018 : ℕ) ++ ' ' :: '-' :: [' '])) = "JaN 2, 2018 - ".toList) ▸ h

theorem leo_writes_where_it_is_read :
    ∃ path, writeHoroscope "leo" .today (trim prediction) [] =
        some (path, ⟨some (String.ofList (trim prediction))⟩) ∧
      (requestPredictionsForZodiac .leo (datesAt 0 (standing 1514851200000)) initial).reads .leo .today =
        some path :=
  @writes_where_it_is_read _ _ _ "Slow, but well-advised - today.".toList _ prediction_header
    (by decide +kernel) [] .leo 0 (standing 1514851200000) (by decide +kernel) initial

end Server
end Horo
