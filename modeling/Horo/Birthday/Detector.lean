/-
# The birthday detector

`src/managers/birthdaydetector`, over the contents of `locdates.json` and
`birthdayslocstr.json`. `toLowerCase` is that of the platform. A number that a
stream does not set is not initialised: `none`.

* `process_eq`: what a text is compared by are its words without the digits
  below nine, if three units are left of them.
* `monthIndex_eq`: the month is that of the first entry that accepts.
-/
import Horo.Data.Person
import Horo.Lib.MapM

namespace Horo

open Lib

/-- The interface of the detector. -/
structure BirthdayDetector where
  isLocalizedBirthdayString : String → List String
  timestampForDateString : String → List String → DateWrapper

namespace BirthdayDetectorImpl

/-- `toUtf16( word ).length()`. -/
def utf16Length (word : List Char) : ℕ := (word.map fun c => if c.toNat < 65536 then 1 else 2).sum

/-- What the detector has of the platform and its files: the entries of
`locdates.json` for a language, which are one for each month, and those of
`birthdayslocstr.json` for a label. -/
structure Resources where
  toLowerCase : List Char → List Char
  locdates : String → Option (List (List Char))
  birthdayslocstr : List Char → List String
  length_entries : ∀ code, ∀ monthes ∈ locdates code, monthes.length = 12

variable (R : Resources)

def isLocalizedBirthdayString (birthdayString : List Char) : List String :=
  R.birthdayslocstr (R.toLowerCase birthdayString)

def process (source : List Char) : List (List Char) :=
  let result := R.toLowerCase source
  let result := (List.range 9).foldl (fun result (i : ℕ) => replaceAll result (intDigits i) []) result
  let result := replaceAll result [' ', ' '] [' ']
  let result := replaceAll result [' ', ' '] [' ']
  (separateString result ' ').filter fun word => 3 ≤ utf16Length word

def arraysOfStringsAcceptableTheSame (one two : List (List Char)) : Bool := one.all fun a => two.contains a

/-- The number at the start of a part; a part that is only white space has none. -/
def numberOf (part : List Char) : Option Int :=
  let cs := part.dropWhile isspace
  if cs = [] then none
  else
    let (neg, cs) := Decimal.signOf cs
    let value : Int := Nat.ofDigitChars 10 (digitsOf cs) 0
    some (if neg then -value else value)

/-- The `int` that is nearest to a number. -/
def clamp (value : Int) : Int32 := Int32.ofInt (max (-2 ^ 31) (min (2 ^ 31 - 1) value))

/-- What `convertor >> number` leaves in `number`. -/
def extract (part : List Char) : Option Int32 := (numberOf part).map clamp

def getNumbers (source : List Char) : Option (List Int32) :=
  ((separateString source ' ').mapM extract).map fun numbers => numbers.filter (· ≠ 0)

/-- The index of the first entry of a language that accepts the words. -/
def monthOf (aWords monthes : List (List Char)) : Option ℕ :=
  monthes.findIdx? fun monthString => arraysOfStringsAcceptableTheSame aWords (process R monthString)

/-- `monthIndex`, `none` being `MonthUnknown`. -/
def monthIndex (dateString : List Char) (languageCodes : List String) : Option ℕ :=
  languageCodes.findSome? fun code =>
    match R.locdates code with
    | some monthes => (monthOf R (process R dateString) monthes).map (· + 1)
    | none => none

/-- `day` and `year` after the loop over the numbers. -/
def dayAndYear (numbers : List Int32) : Int32 × Int32 :=
  numbers.foldl (fun (day, year) number =>
    if 1900 < number then (day, number) else if number < 32 then (number, year) else (day, year)) (0, 0)

def timestampForDateString (dateString : List Char) (languageCodes : List String) : Option DateWrapper :=
  match monthIndex R dateString languageCodes with
  | none => some .none
  | some month => do
    let numbers ← getNumbers dateString
    let (day, year) := dayAndYear numbers
    return if day = 0 then .none else ⟨day, Int32.ofNat month, year⟩

/-! ### The words that are compared -/

def belowNine : List Char := "012345678".toList

/-- What is left of a word. -/
def residue (word : List Char) : List Char := word.filter (· ∉ belowNine)

/-- The words of a text in lower case. -/
def words (source : List Char) : List (List Char) := separateString (R.toLowerCase source) ' '

theorem foldl_replaceAll : ∀ (ds cs : List Char),
    (ds.map fun d => [d]).foldl (fun result d => replaceAll result d []) cs = cs.filter (· ∉ ds)
  | [], cs => by simp
  | d :: ds, cs => by
    rw [List.map_cons, List.foldl_cons, foldl_replaceAll ds, replaceAll_singleton, List.filter_filter]
    refine List.filter_congr fun c _ => ?_
    simp [Bool.and_comm]

/-- **The words that are compared.** -/
theorem process_eq (source : List Char) :
    process R source = ((words R source).map residue).filter fun word => 3 ≤ utf16Length word := by
  have hdigits : (List.range 9).map (fun i : ℕ => intDigits i) = belowNine.map fun d => [d] := by decide
  have hdeleted : ∀ cs : List Char,
      (List.range 9).foldl (fun result (i : ℕ) => replaceAll result (intDigits i) []) cs =
        cs.filter (· ∉ belowNine) := by
    intro cs
    rw [← foldl_replaceAll, ← hdigits, List.foldl_map]
  have hblank : decide (' ' ∉ belowNine) = true := by decide
  have hlong : ∀ word : List Char, 3 ≤ utf16Length word → word ≠ [] := by
    rintro word h rfl
    exact absurd h (by decide)
  calc process R source
      = (separateString ((R.toLowerCase source).filter (· ∉ belowNine)) ' ').filter
          (fun word => 3 ≤ utf16Length word) := by
        simp only [process, hdeleted, separateString_replaceAll]
    _ = (((words R source).map residue).filter (· ≠ [])).filter
          (fun word => 3 ≤ utf16Length word) := by
        rw [separateString_filter hblank]
        rfl
    _ = ((words R source).map residue).filter (fun word => 3 ≤ utf16Length word) := by
        rw [List.filter_filter]
        refine List.filter_congr fun word _ => ?_
        by_cases h : 3 ≤ utf16Length word
        · simp [h, hlong word h]
        · simp [h]

theorem mem_process {source a : List Char} :
    a ∈ process R source ↔ (∃ w ∈ words R source, residue w = a) ∧ 3 ≤ utf16Length a := by
  rw [process_eq, List.mem_filter, List.mem_map, decide_eq_true_eq]

/-- A word without digits that is long enough to be compared. -/
def IsMonthWord (word : List Char) : Prop := (∀ c ∈ word, c.isDigit = false) ∧ 3 ≤ utf16Length word

instance (word : List Char) : Decidable (IsMonthWord word) :=
  decidable_of_iff (word.all (fun c => !c.isDigit) = true ∧ 3 ≤ utf16Length word)
    (by simp [IsMonthWord])

theorem isDigit_of_mem_belowNine {c : Char} (h : c ∈ belowNine) : c.isDigit = true := by
  have hall : belowNine.all Char.isDigit = true := by decide
  exact List.all_eq_true.mp hall c h

theorem residue_eq_self {word : List Char} (h : ∀ c ∈ word, c.isDigit = false) : residue word = word := by
  refine List.filter_eq_self.mpr fun c hc => decide_eq_true fun hmem => ?_
  have hdigit := isDigit_of_mem_belowNine hmem
  rw [h c hc] at hdigit
  cases hdigit

/-- A month word is compared as it is. -/
theorem mem_process_of_isMonthWord {source w : List Char} (hw : w ∈ words R source)
    (h : IsMonthWord w) : w ∈ process R source :=
  (mem_process R).mpr ⟨⟨w, hw, residue_eq_self h.1⟩, h.2⟩

/-! ### The numbers -/

/-- The numbers of the words of a text. -/
def values (source : List Char) : Option (List Int) := (separateString source ' ').mapM numberOf

def days (values : List Int) : List Int := values.filter fun v => v ≠ 0 ∧ v < 32

def years (values : List Int) : List Int := values.filter fun v => 1900 < v

theorem toInt_clamp (v : Int) : (clamp v).toInt = max (-2 ^ 31) (min (2 ^ 31 - 1) v) := by
  rw [clamp, Int32.toInt_ofInt_of_le (by omega) (by omega)]

theorem clamp_eq_zero {v : Int} : clamp v = 0 ↔ v = 0 := by
  have hzero : (0 : Int32).toInt = 0 := rfl
  rw [← Int32.toInt_inj, toInt_clamp, hzero]
  omega

theorem clamp_lt {v : Int} : clamp v < 32 ↔ v < 32 := by
  have h32 : (32 : Int32).toInt = 32 := rfl
  rw [Int32.lt_iff_toInt_lt, toInt_clamp, h32]
  omega

theorem lt_clamp {v : Int} : 1900 < clamp v ↔ 1900 < v := by
  have h1900 : (1900 : Int32).toInt = 1900 := rfl
  rw [Int32.lt_iff_toInt_lt, toInt_clamp, h1900]
  omega

theorem getNumbers_eq (source : List Char) :
    getNumbers source = (values source).map fun vs => (vs.map clamp).filter (· ≠ 0) := by
  unfold getNumbers values
  rw [show extract = fun part => (numberOf part).map clamp from rfl, mapM_map, Option.map_map]
  rfl

/-- The day and the year are the last numbers that can be one. -/
theorem dayAndYear_eq (vs : List Int) :
    dayAndYear ((vs.map clamp).filter (· ≠ 0)) =
      (clamp ((days vs).getLast?.getD 0), clamp ((years vs).getLast?.getD 0)) := by
  induction vs using List.reverseRecOn with
  | nil => rfl
  | append_singleton vs v ih =>
    unfold dayAndYear days years at ih ⊢
    rw [List.map_append, List.filter_append, List.foldl_append, ih, List.filter_append, List.filter_append]
    by_cases hzero : v = 0
    · subst hzero
      simp [clamp_eq_zero]
    · by_cases hyear : 1900 < v
      · have hday : ¬ v < 32 := by omega
        simp [clamp_eq_zero, hzero, lt_clamp, hyear, hday]
      · by_cases hday : v < 32
        · simp [clamp_eq_zero, hzero, lt_clamp, clamp_lt, hyear, hday]
        · simp [clamp_eq_zero, hzero, lt_clamp, clamp_lt, hyear, hday]

/-- The date for a month and the numbers of a text. -/
def dateFrom (month : ℕ) (vs : List Int) : DateWrapper :=
  match (days vs).getLast? with
  | none => .none
  | some d => ⟨clamp d, Int32.ofNat month, clamp ((years vs).getLast?.getD 0)⟩

/-- **The date**, by the numbers of the words. -/
theorem timestampForDateString_eq (dateString : List Char) (languageCodes : List String) :
    timestampForDateString R dateString languageCodes =
      match monthIndex R dateString languageCodes with
      | none => some .none
      | some month => (values dateString).map (dateFrom month) := by
  unfold timestampForDateString
  split
  · rfl
  · rw [getNumbers_eq]
    rcases values dateString with _ | vs
    · rfl
    · simp only [Option.map_some, Option.bind_eq_bind, Option.bind_some, dayAndYear_eq, dateFrom]
      rcases hlast : (days vs).getLast? with _ | d
      · rfl
      · have hmem := List.mem_filter.mp (List.mem_of_getLast? hlast)
        have hne : d ≠ 0 := (of_decide_eq_true hmem.2).1
        simp [clamp_eq_zero, hne]

/-! ### The months that are tried -/

/-- The entries of the languages with their months, in the order in which they
are tried. -/
def candidates (languageCodes : List String) : List (List Char × ℕ) :=
  languageCodes.flatMap fun code => ((R.locdates code).getD []).zipIdx 1

/-- An entry that a text is taken for. -/
def accepts (source entry : List Char) : Bool :=
  arraysOfStringsAcceptableTheSame (process R source) (process R entry)

theorem accepts_iff {source entry : List Char} :
    accepts R source entry = true ↔ ∀ a ∈ process R source, a ∈ process R entry := by
  simp [accepts, arraysOfStringsAcceptableTheSame]

theorem find?_zipIdx {α : Type} (p : α → Bool) : ∀ (l : List α) (k : ℕ),
    ((l.zipIdx k).find? fun c => p c.1).map Prod.snd = (l.findIdx? p).map (· + k)
  | [], _ => rfl
  | a :: l, k => by
    rw [List.zipIdx_cons, List.find?_cons, List.findIdx?_cons]
    by_cases ha : p a = true
    · simp [ha]
    · simp only [ha, Bool.false_eq_true, if_false, find?_zipIdx p l (k + 1), Option.map_map]
      congr 1
      funext i
      simp only [Function.comp_apply]
      omega

/-- **The month is that of the first entry that accepts.** -/
theorem monthIndex_eq (dateString : List Char) (languageCodes : List String) :
    monthIndex R dateString languageCodes =
      ((candidates R languageCodes).find? fun c => accepts R dateString c.1).map Prod.snd := by
  rw [candidates, List.find?_flatMap, List.map_findSome?, monthIndex]
  congr 1
  funext code
  rw [Function.comp_apply, find?_zipIdx]
  cases R.locdates code <;> rfl

theorem month_of_mem_candidates {languageCodes : List String} {entry : List Char} {month : ℕ}
    (h : (entry, month) ∈ candidates R languageCodes) : 1 ≤ month ∧ month ≤ 12 := by
  obtain ⟨code, -, hmem⟩ := List.mem_flatMap.mp h
  rcases hmonthes : R.locdates code with _ | monthes
  · rw [hmonthes] at hmem
    cases hmem
  · rw [hmonthes, Option.getD_some] at hmem
    have hlength := R.length_entries code monthes hmonthes
    have hindex := List.mem_zipIdx hmem
    omega

theorem toInt_month {month : ℕ} (h : 1 ≤ month ∧ month ≤ 12) : (Int32.ofNat month).toInt = month := by
  rw [← Int32.ofInt_eq_ofNat, Int32.toInt_ofInt_of_le (by omega) (by omega)]

/-! ### English -/

/-- The resources for English. -/
def english : Resources where
  toLowerCase := List.map Char.toLower
  locdates code :=
    if code = "en_US" then
      some (["january 13, 1979", "february 5, 1984", "march 11", "april 29, 1982", "may 20, 1989",
        "june 7, 1982", "july 19", "august 5, 1984", "september 12", "october 11, 1993",
        "november 17, 1982", "december 21"].map String.toList)
    else none
  birthdayslocstr text := if text = "birthday".toList then ["en_US", "en_GB"] else []
  length_entries code monthes h := by
    rw [Option.mem_def] at h
    split at h
    · rw [← Option.some.inj h]
      rfl
    · cases h

end BirthdayDetectorImpl
end Horo
