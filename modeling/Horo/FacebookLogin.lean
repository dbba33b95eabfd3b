/-
# The user that Facebook answers with

`FacebookLoginManager::requestUserInformation`, for what the Graph API answers:
a birthday is written MM/DD/YYYY there, and read with the day first.

* `zodiacTypeByDate_eq_unknown_iff`: a sign is found for every month.
* `requestUserInformation_eq`: who is made of an answer.
* `real_iff`: for which answers the user has his real birthday and sign.
-/
import Horo.Account
import Horo.Lib.Calendar

namespace Horo
namespace FacebookLogin

open Lib Calendar Account
open Json (cstr)

/-! ### Dates of the Graph API -/

/-- A number of at least `w` digits. -/
def padded (w n : ℕ) : List Char := (Nat.toDigits 10 n).leftpad w '0'

/-- `MM/DD/YYYY`. -/
def fullBirthday (d : Date) : List Char :=
  padded 2 d.month ++ '/' :: (padded 2 d.day ++ '/' :: padded 4 d.year.toNat)

/-- A text is the full birthday of a date, whose year has four digits. -/
def IsBirthday (birthday : List Char) (d : Date) : Prop :=
  1 ≤ d.year ∧ d.year ≤ 9999 ∧ birthday = fullBirthday d

theorem padded_ne_nil (w n : ℕ) : padded w n ≠ [] := by
  simp [padded, List.leftpad]

theorem isDigit_of_mem_padded {w n : ℕ} {c : Char} (h : c ∈ padded w n) : c.isDigit = true := by
  rcases List.mem_append.mp h with h | h
  · rw [List.eq_of_mem_replicate h]
    decide
  · exact isDigit_of_mem_toDigits h

theorem ofDigitChars_padded (w n : ℕ) : Nat.ofDigitChars 10 (padded w n) 0 = n := by
  rw [padded, List.leftpad, Nat.ofDigitChars_append, Nat.ofDigitChars_replicate_zero, Nat.mul_zero,
    Nat.ofDigitChars_ten_toDigits]

theorem stoi_padded (w : ℕ) {n : ℕ} (h : n < 2 ^ 31) : stoi (padded w n) = some (Int32.ofInt n) := by
  rw [stoi_digits (padded_ne_nil w n) fun c hc => isDigit_of_mem_padded hc, ofDigitChars_padded,
    Json.Value.toInt32, if_pos]
  unfold Json.Value.InIntRange Json.Value.minInt Json.Value.maxInt
  omega

theorem slash_notMem_padded (w n : ℕ) : '/' ∉ padded w n := fun h =>
  absurd (isDigit_of_mem_padded h) (by decide)

theorem toVectorFrom_append {d : Char} {cs : List Char} : ∀ {tmp part : List Char}, d ∉ part →
    toVectorFrom d tmp (part ++ d :: cs) = (tmp ++ part) :: toVectorFrom d [] cs
  | tmp, [], _ => by simp [toVectorFrom]
  | tmp, c :: part, hd => by
    have hc : c ≠ d := fun he => hd (he ▸ List.mem_cons_self)
    rw [List.cons_append, toVectorFrom, if_neg hc,
      toVectorFrom_append fun hm => hd (List.mem_cons_of_mem _ hm), List.append_assoc]
    rfl

theorem toVectorFrom_last {d : Char} : ∀ {tmp part : List Char}, d ∉ part → tmp ++ part ≠ [] →
    toVectorFrom d tmp part = [tmp ++ part]
  | tmp, [], _, hne => by
    rw [List.append_nil] at hne ⊢
    rw [toVectorFrom, if_neg hne]
  | tmp, c :: part, hd, _ => by
    have hc : c ≠ d := fun he => hd (he ▸ List.mem_cons_self)
    rw [toVectorFrom, if_neg hc,
      toVectorFrom_last (fun hm => hd (List.mem_cons_of_mem _ hm)) (by simp), List.append_assoc]
    rfl

/-- The parts of a full birthday. -/
theorem toVector_fullBirthday (d : Date) :
    toVector (fullBirthday d) '/' = [padded 2 d.month, padded 2 d.day, padded 4 d.year.toNat] := by
  rw [toVector, fullBirthday, toVectorFrom_append (slash_notMem_padded _ _),
    toVectorFrom_append (slash_notMem_padded _ _),
    toVectorFrom_last (slash_notMem_padded _ _) (padded_ne_nil _ _)]
  rfl

/-- A full birthday is one of one day. -/
theorem fullBirthday_inj {d e : Date} (h : fullBirthday d = fullBirthday e) :
    d.month = e.month ∧ d.day = e.day := by
  have hparts : [padded 2 d.month, padded 2 d.day, padded 4 d.year.toNat] =
      [padded 2 e.month, padded 2 e.day, padded 4 e.year.toNat] := by
    rw [← toVector_fullBirthday, h, toVector_fullBirthday]
  have hpadded : ∀ {m n : ℕ}, padded 2 m = padded 2 n → m = n := by
    intro m n hmn
    rw [← ofDigitChars_padded 2 m, hmn, ofDigitChars_padded]
  simp only [List.cons.injEq] at hparts
  exact ⟨hpadded hparts.1, hpadded hparts.2.1⟩

/-! ### Signs -/

open ZodiacTypes

/-- What a period is found by. -/
def Tests (date : DateWrapper) (period : ZodiacTypes.Period) : Prop :=
  (period.startMonth = date.month ∧ period.startDay ≤ date.day) ∨
    (period.endMonth = date.month ∧ date.day ≤ period.endDay)

/-- The sign is that of a period that is found, or there is none. -/
theorem zodiacTypeByDate_spec (date : DateWrapper) :
    (∃ x ∈ datasource, Tests date x.2 ∧ zodiacTypeByDate date = x.1) ∨
      (∀ x ∈ datasource, ¬ Tests date x.2) ∧ zodiacTypeByDate date = .unknown := by
  have htests : ∀ x : ZodiacTypes × ZodiacTypes.Period, Tests date x.2 ↔
      ((x.2.startMonth == date.month && decide (x.2.startDay ≤ date.day)) ||
        (x.2.endMonth == date.month && decide (date.day ≤ x.2.endDay))) = true := by
    intro x
    simp [Tests]
  unfold zodiacTypeByDate
  split
  · rename_i type period hfind
    have htest := List.find?_some hfind
    exact Or.inl ⟨(type, period), List.mem_of_find?_eq_some hfind, (htests _).mpr htest, rfl⟩
  · rename_i hfind
    exact Or.inr ⟨fun x hx h => List.find?_eq_none.mp hfind x hx ((htests x).mp h), rfl⟩

/-- One sign starts in a month, the day after another one ends. -/
theorem exists_tests {date : DateWrapper} (h : 1 ≤ date.month ∧ date.month ≤ 12) :
    ∃ x ∈ datasource, Tests date x.2 := by
  have hturn : ∀ i < 12, ∃ x ∈ datasource, ∃ y ∈ datasource, x.2.startMonth = Int32.ofNat (i + 1) ∧
      y.2.endMonth = Int32.ofNat (i + 1) ∧ x.2.startDay.toInt = y.2.endDay.toInt + 1 := by decide
  have hlow : 1 ≤ date.month.toInt := Int32.le_iff_toInt_le.mp h.1
  have hhigh : date.month.toInt ≤ 12 := Int32.le_iff_toInt_le.mp h.2
  have hnat : (((date.month.toInt - 1).toNat + 1 : ℕ) : Int) = date.month.toInt := by omega
  have hindex : Int32.ofNat ((date.month.toInt - 1).toNat + 1) = date.month := by
    rw [← Int32.ofInt_eq_ofNat, hnat, Int32.ofInt_toInt]
  obtain ⟨x, hx, y, hy, hstart, hend, hdays⟩ := hturn (date.month.toInt - 1).toNat (by omega)
  rw [hindex] at hstart hend
  rcases Int.lt_or_le date.day.toInt x.2.startDay.toInt with hday | hday
  · exact ⟨y, hy, Or.inr ⟨hend, Int32.le_iff_toInt_le.mpr (by omega)⟩⟩
  · exact ⟨x, hx, Or.inl ⟨hstart, Int32.le_iff_toInt_le.mpr hday⟩⟩

/-- No two signs are found for one date. -/
theorem eq_of_tests {date : DateWrapper} {x y : ZodiacTypes × ZodiacTypes.Period} (hx : x ∈ datasource)
    (hy : y ∈ datasource) (htestx : Tests date x.2) (htesty : Tests date y.2) : x = y := by
  have hpairs : ∀ x ∈ datasource, ∀ y ∈ datasource,
      (x.2.startMonth = y.2.startMonth → x = y) ∧ (x.2.endMonth = y.2.endMonth → x = y) ∧
        (x.2.startMonth = y.2.endMonth → y.2.endDay < x.2.startDay) := by decide
  rcases htestx with ⟨hm, hd⟩ | ⟨hm, hd⟩ <;> rcases htesty with ⟨hm', hd'⟩ | ⟨hm', hd'⟩
  · exact (hpairs x hx y hy).1 (hm.trans hm'.symm)
  · have hlt := (hpairs x hx y hy).2.2 (hm.trans hm'.symm)
    rw [Int32.lt_iff_toInt_lt] at hlt
    rw [Int32.le_iff_toInt_le] at hd hd'
    omega
  · have hlt := (hpairs y hy x hx).2.2 (hm'.trans hm.symm)
    rw [Int32.lt_iff_toInt_lt] at hlt
    rw [Int32.le_iff_toInt_le] at hd hd'
    omega
  · exact (hpairs x hx y hy).2.1 (hm.trans hm'.symm)

/-- A sign is found for the days of every month, in whatever range they are. -/
theorem zodiacTypeByDate_eq_unknown_iff (date : DateWrapper) :
    zodiacTypeByDate date = .unknown ↔ ¬ (1 ≤ date.month ∧ date.month ≤ 12) := by
  have hmonths : ∀ x ∈ datasource, (1 ≤ x.2.startMonth ∧ x.2.startMonth ≤ 12) ∧
      (1 ≤ x.2.endMonth ∧ x.2.endMonth ≤ 12) ∧ x.1 ≠ .unknown := by decide
  rcases zodiacTypeByDate_spec date with ⟨x, hx, htest, htype⟩ | ⟨hnone, htype⟩
  · obtain ⟨hstart, hend, hknown⟩ := hmonths x hx
    refine iff_of_false (htype ▸ hknown) (not_not_intro ?_)
    rcases htest with ⟨hm, -⟩ | ⟨hm, -⟩
    · exact hm ▸ hstart
    · exact hm ▸ hend
  · refine iff_of_true htype fun hmonth => ?_
    obtain ⟨x, hx, htest⟩ := exists_tests hmonth
    exact hnone x hx htest

/-- The days from the first one of a period to the last one, some of which are
those around the turn of the year. -/
def Contains (period : ZodiacTypes.Period) (month day : Int) : Prop :=
  let start := 100 * period.startMonth.toInt + period.startDay.toInt
  let stop := 100 * period.endMonth.toInt + period.endDay.toInt
  if start ≤ stop then start ≤ 100 * month + day ∧ 100 * month + day ≤ stop
  else start ≤ 100 * month + day ∨ 100 * month + day ≤ stop

instance (period : ZodiacTypes.Period) (month day : Int) : Decidable (Contains period month day) := by
  unfold Contains
  infer_instance

/-- For days of the calendar the test says whether the period has the day. -/
theorem contains_iff_tests {x : ZodiacTypes × ZodiacTypes.Period} (hx : x ∈ datasource) {date : DateWrapper}
    (hmonth : 1 ≤ date.month.toInt ∧ date.month.toInt ≤ 12)
    (hday : 1 ≤ date.day.toInt ∧ date.day.toInt ≤ 31) :
    Contains x.2 date.month.toInt date.day.toInt ↔ Tests date x.2 := by
  have hperiods : ∀ x ∈ datasource, (1 ≤ x.2.startDay.toInt ∧ x.2.startDay.toInt ≤ 31) ∧
      (1 ≤ x.2.endDay.toInt ∧ x.2.endDay.toInt ≤ 31) ∧
        (x.2.endMonth.toInt = x.2.startMonth.toInt + 1 ∨
          x.2.startMonth.toInt = 12 ∧ x.2.endMonth.toInt = 1) := by decide
  obtain ⟨hstart, hend, hnext⟩ := hperiods x hx
  rw [Tests, ← Int32.toInt_inj, ← Int32.toInt_inj, Int32.le_iff_toInt_le, Int32.le_iff_toInt_le]
  dsimp only [Contains]
  split
  · omega
  · omega

theorem ofInt_month_range (d : Date) : 1 ≤ Int32.ofInt d.month ∧ Int32.ofInt d.month ≤ 12 := by
  have hlow := d.month_pos
  have hhigh := d.month_le
  have hone : (1 : Int32).toInt = 1 := rfl
  have htwelve : (12 : Int32).toInt = 12 := rfl
  rw [Int32.le_iff_toInt_le, Int32.le_iff_toInt_le, Int32.toInt_ofInt_of_le (by omega) (by omega)]
  omega

/-- The sign of a date of the calendar is the one whose period it is in. -/
theorem zodiacTypeByDate_eq_iff (d : Date) (year : Int32) (z : ZodiacTypes) :
    ZodiacTypes.zodiacTypeByDate ⟨Int32.ofInt d.day, Int32.ofInt d.month, year⟩ = z ↔
      ∃ period, (z, period) ∈ ZodiacTypes.datasource ∧ Contains period d.month d.day := by
  let date : DateWrapper := ⟨Int32.ofInt d.day, Int32.ofInt d.month, year⟩
  have hmonth := d.month_pos
  have hmonth' := d.month_le
  have hday := d.day_pos
  have hday' := d.day_le_thirtyOne
  have hmonthInt : date.month.toInt = d.month := Int32.toInt_ofInt_of_le (by omega) (by omega)
  have hdayInt : date.day.toInt = d.day := Int32.toInt_ofInt_of_le (by omega) (by omega)
  have hcontains : ∀ x ∈ datasource, Contains x.2 d.month d.day ↔ Tests date x.2 := by
    intro x hx
    rw [← hmonthInt, ← hdayInt]
    exact contains_iff_tests hx (by omega) (by omega)
  change zodiacTypeByDate date = z ↔ _
  rcases zodiacTypeByDate_spec date with ⟨x, hx, htest, htype⟩ | ⟨hnone, -⟩
  · rw [htype]
    constructor
    · rintro rfl
      exact ⟨x.2, hx, (hcontains x hx).mpr htest⟩
    · rintro ⟨period, hperiod, hin⟩
      exact congrArg Prod.fst (eq_of_tests hx hperiod htest ((hcontains _ hperiod).mp hin))
  · have hrange : 1 ≤ date.month ∧ date.month ≤ 12 := ofInt_month_range d
    obtain ⟨x, hx, htest⟩ := exists_tests hrange
    exact absurd htest (hnone x hx)

/-! ### Answers -/

/-- What Facebook answers: a field may be missing. -/
structure Answer where
  birthday : Option String
  name : Option String
  gender : Option String
  id : Option String

namespace Answer

variable (a : Answer)

def data : Json.Value :=
  .object ([("birthday", a.birthday), ("gender", a.gender), ("id", a.id), ("name", a.name)].filterMap
    fun (key, value) => value.map fun text => (key, .string text))

def birthdayText : List Char := (cstr (a.birthday.getD "")).toList

def nameText : String := cstr (a.name.getD "")

end Answer

/-- The person that is made of three numbers. -/
def personOf (a : Answer) (first second third : Int32) : Person :=
  { zodiac := some (ZodiacTypes.zodiacTypeByDate ⟨first, second, third⟩), name := a.nameText,
    imageUrl := "https://graph.facebook.com/" ++ cstr (a.id.getD "") ++ "/picture?type=normal",
    personUrl := "", gender := genderOf (cstr (a.gender.getD "")), status := .completed, type := .user,
    birthdayDate := ⟨first, second, third⟩, withFacebook := true }

theorem asString_get (a : Answer) :
    (a.data.get "birthday").bind Json.Value.asString = some (cstr (a.birthday.getD "")) ∧
      (a.data.get "name").bind Json.Value.asString = some a.nameText ∧
      (a.data.get "gender").bind Json.Value.asString = some (cstr (a.gender.getD "")) ∧
      (a.data.get "id").bind Json.Value.asString = some (cstr (a.id.getD "")) := by
  have hkeys : ∀ key ∈ ["birthday", "name", "gender", "id"], cstr key = key := by decide
  simp only [List.mem_cons, List.not_mem_nil, or_false, forall_eq_or_imp, forall_eq] at hkeys
  obtain ⟨hbirthday, hname, hgender, hid⟩ := hkeys
  obtain ⟨_ | birthday, _ | name, _ | gender, _ | id⟩ := a
  all_goals
    simp only [Answer.data, Answer.nameText, Json.Value.get, hbirthday, hname, hgender, hid]
    refine ⟨?_, ?_, ?_, ?_⟩
  all_goals rfl

/-- **Who is made of an answer.** -/
theorem requestUserInformation_eq (a : Answer) :
    requestUserInformation a.data =
      match toVector a.birthdayText '/' with
      | [dayPart, monthPart, yearPart] =>
        if a.nameText = "" then some none
        else
          (stoi dayPart).bind fun day => (stoi monthPart).bind fun month =>
            (stoi yearPart).map fun year =>
              if 1 ≤ month ∧ month ≤ 12 then some (personOf a day month year) else none
      | _ => some none := by
  obtain ⟨hbirthday, hname, hgender, hid⟩ := asString_get a
  obtain ⟨birthday, hgetBirthday, hasBirthday⟩ := Option.bind_eq_some_iff.mp hbirthday
  obtain ⟨name, hgetName, hasName⟩ := Option.bind_eq_some_iff.mp hname
  obtain ⟨gender, hgetGender, hasGender⟩ := Option.bind_eq_some_iff.mp hgender
  obtain ⟨id, hgetId, hasId⟩ := Option.bind_eq_some_iff.mp hid
  simp only [requestUserInformation, Answer.birthdayText, hgetBirthday, hasBirthday, hgetName, hasName,
    hgetGender, hasGender, hgetId, hasId, Option.bind_eq_bind, Option.bind_some]
  generalize toVector _ '/' = parts
  rcases parts with _ | ⟨dayPart, _ | ⟨monthPart, _ | ⟨yearPart, _ | ⟨part, parts⟩⟩⟩⟩
  · rfl
  · rfl
  · rfl
  · dsimp only
    by_cases hempty : a.nameText = ""
    · rw [if_pos hempty, if_pos hempty]
      rfl
    rw [if_neg hempty, if_neg hempty]
    refine congrArg _ (funext fun day => congrArg _ (funext fun month => ?_))
    rcases stoi yearPart with _ | year
    · rfl
    rw [Option.bind_some, Option.map_some]
    have hsign := zodiacTypeByDate_eq_unknown_iff ⟨day, month, year⟩
    by_cases hmonth : 1 ≤ month ∧ month ≤ 12
    · have hknown : zodiacTypeByDate ⟨day, month, year⟩ ≠ .unknown := fun h => hsign.mp h hmonth
      rw [if_pos hmonth, if_neg hknown]
      rfl
    · rw [if_neg hmonth, if_pos (hsign.mpr hmonth)]
      rfl
  · rfl

/-- A date as the application keeps it. -/
def wrapper (d : Date) : DateWrapper := ⟨Int32.ofInt d.day, Int32.ofInt d.month, Int32.ofInt d.year⟩

/-- Nothing throws, there is a user exactly if the answer has a name and a full
birthday, and the user has that birthday and its sign. -/
def Real (a : Answer) : Prop :=
  ∃ person, requestUserInformation a.data = some person ∧
    (person.isSome = true ↔ a.nameText ≠ "" ∧ ∃ d, IsBirthday a.birthdayText d) ∧
    ∀ p ∈ person, ∀ d, IsBirthday a.birthdayText d → p.birthdayDate = wrapper d ∧
      ∀ z, p.zodiac = some z ↔
        ∃ period, (z, period) ∈ ZodiacTypes.datasource ∧ Contains period d.month d.day

/-- The birthday is not looked at, or has three numbers of which the second is
no month, or is that of a day whose number is that of its month. -/
def Unaffected (a : Answer) : Prop :=
  a.nameText = "" ∨ (toVector a.birthdayText '/').length ≠ 3 ∨
    ∃ first second third,
      (toVector a.birthdayText '/').map stoi = [some first, some second, some third] ∧
        ((∃ d, IsBirthday a.birthdayText d ∧ d.month = d.day) ∨
          (∀ d, ¬ IsBirthday a.birthdayText d) ∧ ¬ (1 ≤ second ∧ second ≤ 12))

theorem length_toVector {birthday : List Char} {d : Date} (h : IsBirthday birthday d) :
    (toVector birthday '/').length = 3 := by
  rw [h.2.2, toVector_fullBirthday]
  rfl

/-- How a full birthday is read: the month is taken for the day. -/
theorem map_stoi_toVector {birthday : List Char} {d : Date} (h : IsBirthday birthday d) :
    (toVector birthday '/').map stoi =
      [some (Int32.ofInt d.month), some (Int32.ofInt d.day), some (Int32.ofInt d.year)] := by
  obtain ⟨hlow, hhigh, rfl⟩ := h
  have hmonth := d.month_le
  have hday := d.day_le_thirtyOne
  have hyear : ((d.year.toNat : ℕ) : Int) = d.year := by omega
  rw [toVector_fullBirthday, List.map_cons, List.map_cons, List.map_cons, List.map_nil,
    stoi_padded 2 (by omega), stoi_padded 2 (by omega), stoi_padded 4 (by omega), hyear]

theorem ofInt_inj {i j : Int} (hi : 0 ≤ i ∧ i < 2 ^ 31) (hj : 0 ≤ j ∧ j < 2 ^ 31)
    (h : Int32.ofInt i = Int32.ofInt j) : i = j := by
  have hint := congrArg Int32.toInt h
  rwa [Int32.toInt_ofInt_of_le (by omega) (by omega), Int32.toInt_ofInt_of_le (by omega) (by omega)]
    at hint

/-- What is answered when the three parts can be read. -/
theorem requestUserInformation_of_parts {a : Answer} {first second third : Int32} (hname : a.nameText ≠ "")
    (hparts : (toVector a.birthdayText '/').map stoi = [some first, some second, some third]) :
    requestUserInformation a.data =
      some (if 1 ≤ second ∧ second ≤ 12 then some (personOf a first second third) else none) := by
  obtain ⟨dayPart, rest, hvector, hday, hrest⟩ := List.map_eq_cons_iff.mp hparts
  obtain ⟨monthPart, rest, rfl, hmonth, hrest⟩ := List.map_eq_cons_iff.mp hrest
  obtain ⟨yearPart, rest, rfl, hyear, hrest⟩ := List.map_eq_cons_iff.mp hrest
  obtain rfl := List.map_eq_nil_iff.mp hrest
  rw [requestUserInformation_eq, hvector]
  simp only [if_neg hname, hday, hmonth, hyear, Option.bind_some, Option.map_some]

/-- Without a user the answer has no full birthday, or no name. -/
theorem real_iff_of_none {a : Answer} (hrequest : requestUserInformation a.data = some none) :
    Real a ↔ ¬ (a.nameText ≠ "" ∧ ∃ d, IsBirthday a.birthdayText d) := by
  constructor
  · rintro ⟨person, hperson, hsome, -⟩ hvalid
    obtain rfl := Option.some.inj (hrequest.symm.trans hperson)
    exact absurd (hsome.mpr hvalid) Bool.false_ne_true
  · intro hvalid
    exact ⟨none, hrequest, ⟨fun h => absurd h Bool.false_ne_true, fun h => absurd h hvalid⟩,
      fun p hp => nomatch hp⟩

/-- A user is real if the birthday is his, and so is the sign. -/
theorem real_iff_of_some {a : Answer} {p : Person}
    (hrequest : requestUserInformation a.data = some (some p)) :
    Real a ↔ (a.nameText ≠ "" ∧ ∃ d, IsBirthday a.birthdayText d) ∧
      ∀ d, IsBirthday a.birthdayText d → p.birthdayDate = wrapper d ∧ ∀ z, p.zodiac = some z ↔
        ∃ period, (z, period) ∈ ZodiacTypes.datasource ∧ Contains period d.month d.day := by
  constructor
  · rintro ⟨person, hperson, hsome, hreal⟩
    obtain rfl := Option.some.inj (hrequest.symm.trans hperson)
    exact ⟨hsome.mp rfl, hreal p rfl⟩
  · rintro ⟨hvalid, hreal⟩
    refine ⟨some p, hrequest, iff_of_true rfl hvalid, fun q hq => ?_⟩
    obtain rfl := Option.some.inj hq
    exact hreal

/-- The numbers of a full birthday, in the order of its parts. -/
theorem parts_of_isBirthday {birthday : List Char} {first second third : Int32} {d : Date}
    (hparts : (toVector birthday '/').map stoi = [some first, some second, some third])
    (hd : IsBirthday birthday d) :
    first = Int32.ofInt d.month ∧ second = Int32.ofInt d.day ∧ third = Int32.ofInt d.year := by
  have hlists := hparts.symm.trans (map_stoi_toVector hd)
  simpa using hlists

/-- The user has the birthday, and its sign, if the day has the number of the
month. -/
theorem personOf_iff {a : Answer} {first second third : Int32} {d : Date}
    (hparts : (toVector a.birthdayText '/').map stoi = [some first, some second, some third])
    (hd : IsBirthday a.birthdayText d) :
    ((personOf a first second third).birthdayDate = wrapper d ∧
      ∀ z, (personOf a first second third).zodiac = some z ↔
        ∃ period, (z, period) ∈ ZodiacTypes.datasource ∧ Contains period d.month d.day) ↔
      d.month = d.day := by
  obtain ⟨hfirst, hsecond, hthird⟩ := parts_of_isBirthday hparts hd
  have hmonth := d.month_le
  have hday := d.day_le_thirtyOne
  constructor
  · rintro ⟨hdate, -⟩
    have hsame : Int32.ofInt d.month = Int32.ofInt d.day := hfirst ▸ congrArg DateWrapper.day hdate
    have heq := ofInt_inj (by omega) (by omega) hsame
    omega
  · intro heq
    have hswap : (⟨first, second, third⟩ : DateWrapper) = wrapper d := by
      rw [wrapper, hfirst, hsecond, hthird, heq]
    refine ⟨hswap, fun z => ?_⟩
    rw [← zodiacTypeByDate_eq_iff d third z, personOf, hswap, wrapper, hthird, Option.some.injEq]

/-- Of three numbers a real user is made only if they are a birthday whose day
has the number of its month. -/
theorem real_iff_of_parts {a : Answer} {first second third : Int32} (hname : a.nameText ≠ "")
    (hparts : (toVector a.birthdayText '/').map stoi = [some first, some second, some third]) :
    Real a ↔ (∃ d, IsBirthday a.birthdayText d ∧ d.month = d.day) ∨
      (∀ d, ¬ IsBirthday a.birthdayText d) ∧ ¬ (1 ≤ second ∧ second ≤ 12) := by
  have hrequest := requestUserInformation_of_parts hname hparts
  by_cases hmonth : 1 ≤ second ∧ second ≤ 12
  · rw [if_pos hmonth] at hrequest
    rw [real_iff_of_some hrequest]
    constructor
    · rintro ⟨⟨-, d, hd⟩, hreal⟩
      exact Or.inl ⟨d, hd, (personOf_iff hparts hd).mp (hreal d hd)⟩
    · rintro (⟨e, he, heq⟩ | ⟨-, hno⟩)
      · refine ⟨⟨hname, e, he⟩, fun d hd => (personOf_iff hparts hd).mpr ?_⟩
        have hinj := fullBirthday_inj (hd.2.2.symm.trans he.2.2)
        omega
      · exact absurd hmonth hno
  · rw [if_neg hmonth] at hrequest
    rw [real_iff_of_none hrequest]
    constructor
    · intro hvalid
      exact Or.inr ⟨fun d hd => hvalid ⟨hname, d, hd⟩, hmonth⟩
    · rintro (⟨e, he, heq⟩ | ⟨hvalid, -⟩)
      · obtain ⟨-, hsecond, -⟩ := parts_of_isBirthday hparts he
        rw [hsecond, ← heq] at hmonth
        exact absurd (ofInt_month_range e) hmonth
      · exact fun h => hvalid _ h.2.choose_spec

/-- A part that is no number throws. -/
theorem stoi_of_requestUserInformation {a : Answer} {person : Option Person} (hname : a.nameText ≠ "")
    (hlength : (toVector a.birthdayText '/').length = 3)
    (hperson : requestUserInformation a.data = some person) :
    ∃ first second third,
      (toVector a.birthdayText '/').map stoi = [some first, some second, some third] := by
  obtain ⟨dayPart, monthPart, yearPart, hparts⟩ := List.length_eq_three.mp hlength
  rw [requestUserInformation_eq, hparts] at hperson
  simp only [if_neg hname] at hperson
  obtain ⟨first, hfirst, hperson⟩ := Option.bind_eq_some_iff.mp hperson
  obtain ⟨second, hsecond, hperson⟩ := Option.bind_eq_some_iff.mp hperson
  obtain ⟨third, hthird, -⟩ := Option.map_eq_some_iff.mp hperson
  exact ⟨first, second, third, by rw [hparts, List.map_cons, List.map_cons, List.map_cons,
    List.map_nil, hfirst, hsecond, hthird]⟩

/-- **The user has his real birthday exactly if the order of the day and the
month does not matter.** -/
theorem real_iff (a : Answer) : Real a ↔ Unaffected a := by
  by_cases hname : a.nameText = ""
  · have hrequest : requestUserInformation a.data = some none := by
      rw [requestUserInformation_eq]
      split
      · rw [if_pos hname]
      · rfl
    exact iff_of_true ((real_iff_of_none hrequest).mpr fun h => h.1 hname) (Or.inl hname)
  by_cases hlength : (toVector a.birthdayText '/').length = 3
  · have hunaffected : Unaffected a ↔ ∃ first second third,
        (toVector a.birthdayText '/').map stoi = [some first, some second, some third] ∧
          ((∃ d, IsBirthday a.birthdayText d ∧ d.month = d.day) ∨
            (∀ d, ¬ IsBirthday a.birthdayText d) ∧ ¬ (1 ≤ second ∧ second ≤ 12)) :=
      ⟨fun h => (h.resolve_left hname).resolve_left (not_not.mpr hlength), fun h => Or.inr (Or.inr h)⟩
    rw [hunaffected]
    constructor
    · intro hreal
      obtain ⟨person, hperson, -⟩ := id hreal
      obtain ⟨first, second, third, hparts⟩ := stoi_of_requestUserInformation hname hlength hperson
      exact ⟨first, second, third, hparts, (real_iff_of_parts hname hparts).mp hreal⟩
    · rintro ⟨first, second, third, hparts, h⟩
      exact (real_iff_of_parts hname hparts).mpr h
  · have hrequest : requestUserInformation a.data = some none := by
      rw [requestUserInformation_eq]
      split
      · rename_i heq
        exact absurd (heq ▸ rfl) hlength
      · rfl
    refine iff_of_true ((real_iff_of_none hrequest).mpr fun h => ?_) (Or.inr (Or.inl hlength))
    obtain ⟨d, hd⟩ := h.2
    exact hlength (length_toVector hd)

/-- Somebody who was born on 2 January. -/
def newYear : Answer :=
  { birthday := some "01/02/1990", name := some "Ann", gender := some "female", id := some "7" }

/-- The second of January is read as the first of February, another sign. -/
theorem january_is_february :
    requestUserInformation newYear.data = some (some (personOf newYear 1 2 1990)) ∧
      (personOf newYear 1 2 1990).zodiac = some .aquarius ∧ ¬ Real newYear := by
  have hrequest : requestUserInformation newYear.data = some (some (personOf newYear 1 2 1990)) := by
    decide +kernel
  refine ⟨hrequest, by decide, ?_⟩
  rintro ⟨person, hperson, -, hreal⟩
  obtain rfl := Option.some.inj (hrequest.symm.trans hperson)
  let day : Date := ⟨1990, 1, 2, by decide, by decide, by decide, by decide⟩
  have hbirthday : IsBirthday newYear.birthdayText day := ⟨by decide, by decide, by decide +kernel⟩
  exact absurd (hreal _ rfl day hbirthday).1 (by decide)

end FacebookLogin
end Horo
