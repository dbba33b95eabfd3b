/-
# Birthdays that the detector recognises

A date made of the words of one month, a day and perhaps a year. The day and
the year are read whatever their order; the month is found if what is left of
the year, once the digits below nine are deleted, is not compared as a word.

* `recognised_iff`: when the date is recognised, for any table of months.
* `length_residue_day`: nothing that counts is left of a day.
-/
import Horo.Birthday.Detector

namespace Horo
namespace BirthdayDetectorImpl

open Lib

/-! ### The texts -/

/-- What is used of `lowercaseString`: it goes word by word, leaves numbers as
they are, and makes and removes no digit. -/
structure LowerCase (toLowerCase : List Char → List Char) : Prop where
  separate : ∀ s, '\x00' ∉ s →
    separateString (toLowerCase s) ' ' = (separateString s ' ').map toLowerCase
  numeral : ∀ s, (∀ c ∈ s, c.isDigit = true ∨ c = ',' ∨ c = '.') → toLowerCase s = s
  digit : ∀ s, '\x00' ∉ s → ∀ c, c.isDigit = true → (c ∈ toLowerCase s ↔ c ∈ s)

/-- A number as it stands in a date: a comma or a full stop may follow. -/
def Written (n : ℕ) (token : List Char) : Prop :=
  ∃ digits, ∃ suffix ∈ [[], [','], ['.']], token = digits ++ suffix ∧ digits ≠ [] ∧
    (∀ c ∈ digits, c.isDigit = true) ∧ Nat.ofDigitChars 10 digits 0 = n

variable (R : Resources)

def monthWords (entry : List Char) : List (List Char) := (words R entry).filter fun w => IsMonthWord w

/-- A date in the words of a language whose months can be told apart. A date
without a year has the year zero. -/
structure DateText (code : String) where
  monthes : List (List Char)
  locdates_eq : R.locdates code = some monthes
  incomparable : ∀ i < 12, ∀ j < 12, i ≠ j →
    ∃ w ∈ monthWords R (monthes.getD i []), w ∉ monthWords R (monthes.getD j [])
  index : ℕ
  index_lt : index < 12
  day : ℕ
  day_range : 1 ≤ day ∧ day ≤ 31
  year : ℕ
  dayToken : List Char
  dayToken_written : Written day dayToken
  yearTokens : List (List Char)
  year_written : (yearTokens = [] ∧ year = 0) ∨
    ∃ token, yearTokens = [token] ∧ Written year token ∧ 1900 < year ∧ year < 2 ^ 31
  monthTokens : List (List Char)
  mem_monthTokens : ∀ w, w ∈ monthTokens.map R.toLowerCase ↔ w ∈ monthWords R (monthes.getD index [])
  dateString : List Char
  nul_notMem : '\x00' ∉ dateString
  perm : (separateString dateString ' ').Perm (monthTokens ++ dayToken :: yearTokens)

variable {R}

namespace DateText

variable {code : String} (t : DateText R code)

/-- The entry of the month. -/
def entry : List Char := t.monthes.getD t.index []

def Recognised : Prop :=
  timestampForDateString R t.dateString [code] =
    some ⟨Int32.ofNat t.day, Int32.ofNat (t.index + 1), Int32.ofNat t.year⟩

/-- What is left of the year is no word that counts, or one of the entry; no
earlier entry accepts the text; and no word is only white space. -/
structure Unambiguous : Prop where
  year_left : ∀ token ∈ t.yearTokens, 3 ≤ utf16Length (residue token) → residue token ∈ process R t.entry
  earlier : ∀ i < t.index, accepts R t.dateString (t.monthes.getD i []) = false
  visible : ∀ w ∈ t.monthTokens, ∃ c ∈ w, isspace c = false

end DateText

/-! ### Numbers in a date -/

theorem mem_digits {c : Char} (h : c.isDigit = true) : c ∈ belowNine ∨ c = '9' := by
  have hall : ∀ n < 58, 48 ≤ n → (Char.ofNat n ∈ belowNine ∨ Char.ofNat n = '9') := by decide
  simp only [Char.isDigit, Bool.and_eq_true, decide_eq_true_eq, ge_iff_le, UInt32.le_iff_toNat_le] at h
  have hlow : 48 ≤ c.toNat := h.1
  have hhigh : c.toNat ≤ 57 := h.2
  have hc := hall c.toNat (by omega) hlow
  rwa [Char.ofNat_toNat] at hc

theorem utf16Length_append (v w : List Char) : utf16Length (v ++ w) = utf16Length v + utf16Length w := by
  simp [utf16Length]

/-- What is left of digits are the nines, and a number with them is no day. -/
theorem ofDigitChars_residue (digits : List Char) (hdigits : ∀ c ∈ digits, c.isDigit = true) :
    (1 ≤ utf16Length (residue digits) → 9 ≤ Nat.ofDigitChars 10 digits 0) ∧
      (2 ≤ utf16Length (residue digits) → 99 ≤ Nat.ofDigitChars 10 digits 0) := by
  induction digits using List.reverseRecOn with
  | nil => exact ⟨fun h => absurd h (by decide), fun h => absurd h (by decide)⟩
  | append_singleton digits c ih =>
    obtain ⟨ih1, ih2⟩ := ih fun c hc => hdigits c (List.mem_append_left _ hc)
    have hc := hdigits c (List.mem_append_right _ List.mem_cons_self)
    have hvalue : Nat.ofDigitChars 10 (digits ++ [c]) 0 =
        10 * Nat.ofDigitChars 10 digits 0 + (c.toNat - 48) := by
      rw [Nat.ofDigitChars_append, Nat.ofDigitChars_cons, Nat.ofDigitChars_nil]
      rfl
    have hresidue : residue (digits ++ [c]) = residue digits ++ residue [c] := List.filter_append ..
    rw [hvalue, hresidue, utf16Length_append]
    rcases mem_digits hc with hbelow | rfl
    · have hempty : residue [c] = [] := by simp [residue, hbelow]
      rw [hempty]
      change (1 ≤ utf16Length (residue digits) + 0 → _) ∧ (2 ≤ utf16Length (residue digits) + 0 → _)
      omega
    · have hnine : utf16Length (residue ['9']) = 1 := by decide
      have hnat : ('9' : Char).toNat - 48 = 9 := rfl
      rw [hnine, hnat]
      omega

/-- **Nothing that counts is left of a day.** -/
theorem length_residue_day {day : ℕ} {token : List Char} (h : Written day token) (hday : day ≤ 31) :
    utf16Length (residue token) < 3 := by
  obtain ⟨digits, suffix, hsuffix, rfl, -, hdigits, rfl⟩ := h
  have hleft := (ofDigitChars_residue digits hdigits).2
  have hsuffixLength : ∀ suffix ∈ [[], [','], ['.']], utf16Length (residue suffix) ≤ 1 := by decide
  have hlength := hsuffixLength suffix hsuffix
  have happend : residue (digits ++ suffix) = residue digits ++ residue suffix := List.filter_append ..
  rw [happend, utf16Length_append]
  omega

/-- A number is read. -/
theorem numberOf_written {n : ℕ} {token : List Char} (h : Written n token) :
    numberOf token = some (n : Int) := by
  obtain ⟨digits, suffix, hsuffix, rfl, hne, hdigits, rfl⟩ := h
  have hhead : ∀ c ∈ suffix.head?, c.isDigit = false := by
    simp only [List.mem_cons, List.not_mem_nil, or_false] at hsuffix
    rcases hsuffix with rfl | rfl | rfl
    · exact fun c hc => nomatch hc
    · exact fun c hc => Option.some.inj hc ▸ rfl
    · exact fun c hc => Option.some.inj hc ▸ rfl
  have hread := digitsOf_append hdigits hhead
  obtain ⟨c, cs, rfl⟩ := List.exists_cons_of_ne_nil hne
  have hc := hdigits c List.mem_cons_self
  rw [List.cons_append] at hread ⊢
  unfold numberOf
  rw [List.dropWhile_cons_of_neg (by simp [isspace_of_isDigit hc])]
  simp only [signOf_of_isDigit hc, hread, reduceCtorEq, if_false, Bool.false_eq_true]

/-- A word without digits has the number zero, if it can be seen. -/
theorem numberOf_of_notDigit {w : List Char} (h : ∀ c ∈ w, c.isDigit = false) (v : Int) :
    numberOf w = some v ↔ v = 0 ∧ ∃ c ∈ w, isspace c = false := by
  have hsign : ∀ cs : List Char, ∀ c ∈ (Decimal.signOf cs).2, c ∈ cs := by
    intro cs c hc
    unfold Decimal.signOf at hc
    split at hc
    · exact List.mem_cons_of_mem _ hc
    · exact List.mem_cons_of_mem _ hc
    · exact hc
  have hdigits : digitsOf (Decimal.signOf (w.dropWhile isspace)).2 = [] := by
    rw [digitsOf, List.takeWhile_eq_nil_iff]
    intro hlength hdigit
    have hmem := (List.dropWhile_sublist _).subset (hsign _ _ (List.getElem_mem hlength))
    rw [List.get_eq_getElem, h _ hmem] at hdigit
    cases hdigit
  have hvisible : (∃ c ∈ w, isspace c = false) ↔ w.dropWhile isspace ≠ [] := by
    simp [List.dropWhile_eq_nil_iff]
  unfold numberOf
  rw [hvisible]
  by_cases hnil : w.dropWhile isspace = []
  · simp [hnil]
  · have hzero : Nat.ofDigitChars 10 [] 0 = 0 := rfl
    simp only [hnil, hdigits, hzero, if_false, Int.natCast_zero, Int.neg_zero, ite_self,
      Option.some.injEq, ne_eq, not_false_eq_true, and_true]
    exact eq_comm

/-! ### What the detector reads -/

/-- The last of equal elements. -/
theorem getLast?_of_forall {α : Type} {a : α} {l : List α} (hmem : a ∈ l) (h : ∀ x ∈ l, x = a) :
    l.getLast? = some a := by
  have hne := List.ne_nil_of_mem hmem
  rw [List.getLast?_eq_some_getLast hne, h _ (List.getLast_mem hne)]

namespace DateText

variable {code : String} (t : DateText R code)

theorem mem_tokens {token : List Char} : token ∈ separateString t.dateString ' ' ↔
    token ∈ t.monthTokens ∨ token = t.dayToken ∨ token ∈ t.yearTokens := by
  rw [t.perm.mem_iff, List.mem_append, List.mem_cons]

theorem written_of_mem {token : List Char} (h : token ∈ t.yearTokens) :
    t.yearTokens = [token] ∧ Written t.year token ∧ 1900 < t.year ∧ t.year < 2 ^ 31 := by
  rcases t.year_written with ⟨hnil, -⟩ | ⟨token', htokens, hwritten⟩
  · rw [hnil] at h
    cases h
  · rw [htokens, List.mem_singleton] at h
    rw [h]
    exact ⟨htokens, hwritten⟩

theorem year_lt : t.year < 2 ^ 31 := by
  rcases t.year_written with ⟨-, hzero⟩ | ⟨-, -, -, -, hlt⟩
  · rw [hzero]
    decide
  · exact hlt

theorem toLowerCase_written (hR : LowerCase R.toLowerCase) {n : ℕ} {token : List Char}
    (h : Written n token) : R.toLowerCase token = token := by
  obtain ⟨digits, suffix, hsuffix, rfl, -, hdigits, -⟩ := h
  apply hR.numeral
  intro c hc
  rcases List.mem_append.mp hc with hc | hc
  · exact Or.inl (hdigits c hc)
  · simp only [List.mem_cons, List.not_mem_nil, or_false] at hsuffix
    rcases hsuffix with rfl | rfl | rfl
    · cases hc
    · exact Or.inr (Or.inl (List.mem_singleton.mp hc))
    · exact Or.inr (Or.inr (List.mem_singleton.mp hc))

/-- The words of the text in lower case. -/
theorem mem_words (hR : LowerCase R.toLowerCase) {w : List Char} : w ∈ words R t.dateString ↔
    w ∈ monthWords R t.entry ∨ w = t.dayToken ∨ w ∈ t.yearTokens := by
  have hday := toLowerCase_written hR t.dayToken_written
  rw [words, hR.separate _ t.nul_notMem, List.mem_map, entry, ← t.mem_monthTokens, List.mem_map]
  simp only [t.mem_tokens]
  constructor
  · rintro ⟨token, htoken | rfl | htoken, rfl⟩
    · exact Or.inl ⟨token, htoken, rfl⟩
    · exact Or.inr (Or.inl hday)
    · rw [toLowerCase_written hR (t.written_of_mem htoken).2.1]
      exact Or.inr (Or.inr htoken)
  · rintro (⟨token, htoken, rfl⟩ | rfl | htoken)
    · exact ⟨token, Or.inl htoken, rfl⟩
    · exact ⟨_, Or.inr (Or.inl rfl), hday⟩
    · exact ⟨w, Or.inr (Or.inr htoken), toLowerCase_written hR (t.written_of_mem htoken).2.1⟩

/-- The words that are compared: those of the month, and what is left of the
year if it counts. -/
theorem mem_process_dateString (hR : LowerCase R.toLowerCase) {a : List Char} :
    a ∈ process R t.dateString ↔ a ∈ monthWords R t.entry ∨
      ∃ token ∈ t.yearTokens, residue token = a ∧ 3 ≤ utf16Length a := by
  have hmonth : ∀ w ∈ monthWords R t.entry, residue w = w ∧ 3 ≤ utf16Length w := by
    intro w hw
    have hw := of_decide_eq_true (List.mem_filter.mp hw).2
    exact ⟨residue_eq_self hw.1, hw.2⟩
  rw [mem_process]
  constructor
  · rintro ⟨⟨w, hw, rfl⟩, hlong⟩
    rcases (t.mem_words hR).mp hw with hw | rfl | hw
    · rw [(hmonth w hw).1]
      exact Or.inl hw
    · exact absurd hlong (Nat.not_le.mpr (length_residue_day t.dayToken_written t.day_range.2))
    · exact Or.inr ⟨w, hw, rfl, hlong⟩
  · rintro (ha | ⟨token, htoken, rfl, hlong⟩)
    · exact ⟨⟨a, (t.mem_words hR).mpr (Or.inl ha), (hmonth a ha).1⟩, (hmonth a ha).2⟩
    · exact ⟨⟨token, (t.mem_words hR).mpr (Or.inr (Or.inr htoken)), rfl⟩, hlong⟩

/-- The entry of the month accepts the text if what is left of the year does
not count or is one of its words. -/
theorem accepts_entry_iff (hR : LowerCase R.toLowerCase) :
    accepts R t.dateString t.entry = true ↔
      ∀ token ∈ t.yearTokens, 3 ≤ utf16Length (residue token) → residue token ∈ process R t.entry := by
  rw [accepts_iff]
  constructor
  · intro h token htoken hlong
    exact h _ ((t.mem_process_dateString hR).mpr (Or.inr ⟨token, htoken, rfl, hlong⟩))
  · intro h a ha
    rcases (t.mem_process_dateString hR).mp ha with ha | ⟨token, htoken, rfl, hlong⟩
    · have hmem := List.mem_filter.mp ha
      exact mem_process_of_isMonthWord R hmem.1 (of_decide_eq_true hmem.2)
    · exact h token htoken hlong

/-- A word for a month has no digit. -/
theorem notDigit_of_mem (hR : LowerCase R.toLowerCase) {w : List Char} (hw : w ∈ t.monthTokens) :
    ∀ c ∈ w, c.isDigit = false := by
  have hlower : R.toLowerCase w ∈ monthWords R t.entry :=
    (t.mem_monthTokens _).mp (List.mem_map_of_mem hw)
  have hmonth := (of_decide_eq_true (List.mem_filter.mp hlower).2).1
  intro c hc
  by_contra hdigit
  rw [Bool.not_eq_false] at hdigit
  have hnul : '\x00' ∉ w := fun h =>
    t.nul_notMem (subset_of_mem_separateString (t.mem_tokens.mpr (Or.inl hw)) h)
  have hmem := (hR.digit w hnul c hdigit).mpr hc
  rw [hmonth c hmem] at hdigit
  cases hdigit

/-- The numbers of the text are the day, the year and zeros, if all its words
can be seen. -/
theorem exists_values_iff (hR : LowerCase R.toLowerCase) :
    (∃ vs, values t.dateString = some vs) ↔ ∀ w ∈ t.monthTokens, ∃ c ∈ w, isspace c = false := by
  rw [values, exists_mapM_iff]
  constructor
  · intro h w hw
    obtain ⟨v, hv⟩ := h w (t.mem_tokens.mpr (Or.inl hw))
    exact ((numberOf_of_notDigit (t.notDigit_of_mem hR hw) v).mp hv).2
  · intro h token htoken
    rcases t.mem_tokens.mp htoken with hw | rfl | hw
    · exact ⟨0, (numberOf_of_notDigit (t.notDigit_of_mem hR hw) 0).mpr ⟨rfl, h token hw⟩⟩
    · exact ⟨_, numberOf_written t.dayToken_written⟩
    · exact ⟨_, numberOf_written (t.written_of_mem hw).2.1⟩

/-- The month that is found is that of the entry if it is the first one that
accepts the text. -/
theorem monthIndex_eq_iff : monthIndex R t.dateString [code] = some (t.index + 1) ↔
    accepts R t.dateString t.entry = true ∧
      ∀ i < t.index, accepts R t.dateString (t.monthes.getD i []) = false := by
  have hlength := R.length_entries code t.monthes t.locdates_eq
  have hindex := t.index_lt
  have hget : ∀ {i : ℕ} (hi : i < t.monthes.length), t.monthes.getD i [] = t.monthes[i] := fun hi => by
    rw [List.getD_eq_getElem?_getD, List.getElem?_eq_getElem hi, Option.getD_some]
  have hfind : monthIndex R t.dateString [code] = some (t.index + 1) ↔
      t.monthes.findIdx? (accepts R t.dateString) = some t.index := by
    have hmonthOf : monthOf R (process R t.dateString) t.monthes =
        t.monthes.findIdx? (accepts R t.dateString) := rfl
    simp only [monthIndex, List.findSome?_cons, List.findSome?_nil, t.locdates_eq, hmonthOf]
    cases t.monthes.findIdx? (accepts R t.dateString) <;> simp
  rw [hfind, List.findIdx?_eq_some_iff_getElem]
  constructor
  · rintro ⟨hi, haccepts, hbefore⟩
    refine ⟨by rw [entry, hget hi, haccepts], fun i hlt => ?_⟩
    rw [hget (Nat.lt_trans hlt hi)]
    simpa using hbefore i hlt
  · rintro ⟨haccepts, hbefore⟩
    have hi : t.index < t.monthes.length := by omega
    refine ⟨hi, by rw [← hget hi]; exact haccepts, fun i hlt => ?_⟩
    rw [← hget (Nat.lt_trans hlt hi), hbefore i hlt]
    exact Bool.false_ne_true

/-- The numbers are zeros, the day and the year. -/
theorem mem_values (hR : LowerCase R.toLowerCase) {vs : List Int} (hvs : values t.dateString = some vs)
    {v : Int} (hv : v ∈ vs) : v = 0 ∨ v = t.day ∨ (v = t.year ∧ t.yearTokens ≠ []) := by
  obtain ⟨token, htoken, hnumber⟩ := (mem_of_mapM hvs v).mp hv
  rcases t.mem_tokens.mp htoken with hw | rfl | hw
  · exact Or.inl ((numberOf_of_notDigit (t.notDigit_of_mem hR hw) v).mp hnumber).1
  · rw [numberOf_written t.dayToken_written] at hnumber
    exact Or.inr (Or.inl (Option.some.inj hnumber).symm)
  · rw [numberOf_written (t.written_of_mem hw).2.1] at hnumber
    exact Or.inr (Or.inr ⟨(Option.some.inj hnumber).symm, List.ne_nil_of_mem hw⟩)

theorem getLast?_days (hR : LowerCase R.toLowerCase) {vs : List Int}
    (hvs : values t.dateString = some vs) : (days vs).getLast? = some (t.day : Int) := by
  have hday := t.day_range
  apply getLast?_of_forall
  · have hmem : (t.day : Int) ∈ vs := (mem_of_mapM hvs _).mpr
      ⟨t.dayToken, t.mem_tokens.mpr (Or.inr (Or.inl rfl)), numberOf_written t.dayToken_written⟩
    exact List.mem_filter.mpr ⟨hmem, decide_eq_true (by omega)⟩
  · intro v hv
    obtain ⟨hv, hlt⟩ := List.mem_filter.mp hv
    obtain ⟨hne, hlt⟩ := of_decide_eq_true hlt
    rcases t.mem_values hR hvs hv with rfl | hv | ⟨rfl, hyear⟩
    · exact absurd rfl hne
    · exact hv
    · obtain ⟨token, htoken⟩ := List.exists_mem_of_ne_nil _ hyear
      have hgt := (t.written_of_mem htoken).2.2.1
      omega

theorem getLast?_years (hR : LowerCase R.toLowerCase) {vs : List Int}
    (hvs : values t.dateString = some vs) : (years vs).getLast?.getD 0 = (t.year : Int) := by
  have hday := t.day_range
  have hall : ∀ v ∈ years vs, v = t.year ∧ t.yearTokens ≠ [] := by
    intro v hv
    obtain ⟨hv, hlt⟩ := List.mem_filter.mp hv
    have hlt := of_decide_eq_true hlt
    rcases t.mem_values hR hvs hv with rfl | rfl | hv
    · omega
    · omega
    · exact hv
  rcases t.year_written with ⟨hnil, hzero⟩ | ⟨token, htokens, hwritten, hgt, -⟩
  · have hempty : years vs = [] := List.eq_nil_iff_forall_not_mem.mpr fun v hv => (hall v hv).2 hnil
    rw [hempty, hzero]
    rfl
  · have hmem : (t.year : Int) ∈ vs := by
      refine (mem_of_mapM hvs _).mpr
        ⟨token, t.mem_tokens.mpr (Or.inr (Or.inr ?_)), numberOf_written hwritten⟩
      exact htokens ▸ List.mem_cons_self
    have hyear : (t.year : Int) ∈ years vs := List.mem_filter.mpr ⟨hmem, decide_eq_true (by omega)⟩
    rw [getLast?_of_forall hyear fun v hv => (hall v hv).1]
    rfl

/-- The date is that of the day and the year, whatever their order. -/
theorem dateFrom_eq (hR : LowerCase R.toLowerCase) {vs : List Int} (hvs : values t.dateString = some vs)
    (month : ℕ) :
    dateFrom month vs = ⟨Int32.ofNat t.day, Int32.ofNat month, Int32.ofNat t.year⟩ := by
  have hday := t.day_range
  have hclamp : ∀ n : ℕ, n < 2 ^ 31 → clamp n = Int32.ofNat n := by
    intro n hn
    have hin : max (-2 ^ 31) (min (2 ^ 31 - 1) (n : Int)) = n := by omega
    rw [clamp, hin, Int32.ofInt_eq_ofNat]
  simp only [dateFrom, t.getLast?_days hR hvs, t.getLast?_years hR hvs, hclamp t.day (by omega),
    hclamp t.year t.year_lt]

end DateText

/-- **A date is recognised exactly if it is unambiguous.** -/
theorem recognised_iff (hR : LowerCase R.toLowerCase) {code : String} (t : DateText R code) :
    t.Recognised ↔ t.Unambiguous := by
  have hdate := timestampForDateString_eq R t.dateString [code]
  have hday := t.day_range
  have hindex := t.index_lt
  constructor
  · intro h
    rw [DateText.Recognised, hdate] at h
    rcases hmonth : monthIndex R t.dateString [code] with _ | month
    · rw [hmonth] at h
      have hzero : (0 : Int32) = Int32.ofNat t.day := congrArg DateWrapper.day (Option.some.inj h)
      have hint := congrArg Int32.toInt hzero
      rw [← Int32.ofInt_eq_ofNat, Int32.toInt_ofInt_of_le (by omega) (by omega)] at hint
      have hnull : (0 : Int32).toInt = 0 := rfl
      omega
    · rw [hmonth] at h
      obtain ⟨vs, hvs, hfrom⟩ := Option.map_eq_some_iff.mp h
      rw [t.dateFrom_eq hR hvs] at hfrom
      have hrange : 1 ≤ month ∧ month ≤ 12 := by
        rw [monthIndex_eq] at hmonth
        obtain ⟨c, hfind, rfl⟩ := Option.map_eq_some_iff.mp hmonth
        exact month_of_mem_candidates R (List.mem_of_find?_eq_some hfind)
      have hfound : month = t.index + 1 := by
        have hsame : Int32.ofNat month = Int32.ofNat (t.index + 1) := congrArg DateWrapper.month hfrom
        have hint := congrArg Int32.toInt hsame
        rw [toInt_month hrange, toInt_month (by omega)] at hint
        exact_mod_cast hint
      rw [hfound] at hmonth
      obtain ⟨haccepts, hearlier⟩ := t.monthIndex_eq_iff.mp hmonth
      exact ⟨(t.accepts_entry_iff hR).mp haccepts, hearlier, (t.exists_values_iff hR).mp ⟨vs, hvs⟩⟩
  · rintro ⟨hyear, hearlier, hvisible⟩
    obtain ⟨vs, hvs⟩ := (t.exists_values_iff hR).mpr hvisible
    have hmonth := t.monthIndex_eq_iff.mpr ⟨(t.accepts_entry_iff hR).mpr hyear, hearlier⟩
    rw [DateText.Recognised, hdate, hmonth, hvs]
    exact congrArg some (t.dateFrom_eq hR hvs _)

/-! ### English dates -/

/-- A letter is lowered to a letter, and what is none stays. -/
theorem isUpper_or_toLower (c : Char) : c.isUpper = true ∧ c.toLower.isLower = true ∨ c.toLower = c := by
  by_cases h : c.val ≥ 'A'.val ∧ c.val ≤ 'Z'.val
  · left
    have hA : 65 ≤ c.val.toNat := h.1
    have hZ : c.val.toNat ≤ 90 := h.2
    have hval : (c.val + 32).toNat = c.val.toNat + 32 := by
      rw [UInt32.toNat_add]
      exact Nat.mod_eq_of_lt (by change c.val.toNat + 32 < 2 ^ 32; omega)
    have hlower : 97 ≤ (c.val + 32).toNat ∧ (c.val + 32).toNat ≤ 122 := by omega
    have htoLower : c.toLower.val = c.val + 32 := congrArg Char.val (dif_pos h)
    refine ⟨decide_eq_true h, Bool.and_eq_true_iff.mpr ⟨decide_eq_true ?_, decide_eq_true ?_⟩⟩
    · rw [htoLower]
      exact hlower.1
    · rw [htoLower]
      exact hlower.2
  · exact Or.inr (dif_neg h)

theorem toLower_eq_iff {c d : Char} (hd : d.isAlpha = false) : c.toLower = d ↔ c = d := by
  replace hd := Bool.or_eq_false_iff.mp hd
  rcases isUpper_or_toLower c with ⟨hupper, hlower⟩ | hfixed
  · constructor
    · rintro rfl
      rw [hlower] at hd
      cases hd.2
    · rintro rfl
      rw [hupper] at hd
      cases hd.1
  · rw [hfixed]

theorem separateFrom_map {f : Char → Char} {d : Char} (hf : ∀ c, f c = d ↔ c = d) :
    ∀ cs substr : List Char,
      separateFrom d (substr.map f) (cs.map f) = (separateFrom d substr cs).map (List.map f)
  | [], substr => by
    rw [List.map_nil, separateFrom, separateFrom]
    by_cases h : substr = [] <;> simp [h]
  | c :: cs, substr => by
    have ih := separateFrom_map hf cs
    rw [List.map_cons, separateFrom, separateFrom]
    by_cases hc : c = d
    · rw [if_pos ((hf c).mpr hc), if_pos hc]
      by_cases h : substr = []
      · rw [if_pos (by simp [h]), if_pos h]
        exact ih []
      · rw [if_neg (by simp [h]), if_neg h, List.map_cons]
        exact congrArg _ (ih [])
    · rw [if_neg (by rwa [hf]), if_neg hc, ← ih, List.map_append]
      rfl

theorem isAlpha_of_isDigit {c : Char} (h : c.isDigit = true) : c.isAlpha = false := by
  have hall : ('9' :: belowNine).all (fun c => !c.isAlpha) = true := by decide
  have hc := List.all_eq_true.mp hall c (List.mem_cons.mpr (mem_digits h).symm)
  exact Bool.not_eq_true' _ ▸ hc

/-- The English resources lower the letters only. -/
theorem lowerCase_english : LowerCase english.toLowerCase where
  separate s _ := separateFrom_map (fun c => toLower_eq_iff (by decide)) s []
  numeral s hs := by
    refine (List.map_congr_left fun c hc => ?_).trans (List.map_id s)
    have halpha : c.isAlpha = false := by
      rcases hs c hc with hdigit | rfl | rfl
      · exact isAlpha_of_isDigit hdigit
      · decide
      · decide
    exact (toLower_eq_iff halpha).mpr rfl
  digit s _ c hc := by
    have hiff : ∀ x : Char, x.toLower = c ↔ x = c := fun x => toLower_eq_iff (isAlpha_of_isDigit hc)
    refine ⟨fun h => ?_, fun h => List.mem_map.mpr ⟨c, h, (hiff c).mpr rfl⟩⟩
    obtain ⟨x, hx, hxc⟩ := List.mem_map.mp h
    exact (hiff x).mp hxc ▸ hx

def englishMonthes : List (List Char) := (english.locdates "en_US").getD []

theorem englishMonthes_incomparable : ∀ i < 12, ∀ j < 12, i ≠ j →
    ∃ w ∈ monthWords english (englishMonthes.getD i []),
      w ∉ monthWords english (englishMonthes.getD j []) := by
  have hall : ((List.range 12).all fun i => (List.range 12).all fun j => i = j ||
      (monthWords english (englishMonthes.getD i [])).any
        fun w => w ∉ monthWords english (englishMonthes.getD j [])) = true := by decide +kernel
  intro i hi j hj hij
  have hrow := List.all_eq_true.mp hall i (List.mem_range.mpr hi)
  have hcell := List.all_eq_true.mp hrow j (List.mem_range.mpr hj)
  simpa [hij] using hcell

/-- The fifth of January of a year. -/
def fifthOfJanuary (dateString yearToken : List Char) (year : ℕ) (hyear : Written year yearToken)
    (hrange : 1900 < year ∧ year < 2 ^ 31) (hnul : '\x00' ∉ dateString)
    (htokens : separateString dateString ' ' = ["January".toList, "5,".toList, yearToken]) :
    DateText english "en_US" where
  monthes := englishMonthes
  locdates_eq := rfl
  incomparable := englishMonthes_incomparable
  index := 0
  index_lt := by decide
  day := 5
  day_range := by decide
  year := year
  dayToken := "5,".toList
  dayToken_written := ⟨['5'], [','], by decide, rfl, by decide, List.all_eq_true.mp rfl, rfl⟩
  yearTokens := [yearToken]
  year_written := Or.inr ⟨yearToken, rfl, hyear, hrange⟩
  monthTokens := ["January".toList]
  mem_monthTokens w := by
    have hwords : monthWords english (englishMonthes.getD 0 []) =
      ["January".toList].map english.toLowerCase := by decide
    rw [hwords]
  dateString := dateString
  nul_notMem := hnul
  perm := List.Perm.of_eq htokens

def in1990 : DateText english "en_US" :=
  fifthOfJanuary "January 5, 1990".toList "1990".toList 1990
    ⟨"1990".toList, [], by decide, rfl, by decide, List.all_eq_true.mp rfl, rfl⟩
    (by decide) (by decide) (by decide)

def in1999 : DateText english "en_US" :=
  fifthOfJanuary "January 5, 1999".toList "1999".toList 1999
    ⟨"1999".toList, [], by decide, rfl, by decide, List.all_eq_true.mp rfl, rfl⟩
    (by decide) (by decide) (by decide)

theorem recognised_1990 : in1990.Recognised :=
  (recognised_iff lowerCase_english in1990).mpr
    ⟨by decide, fun i hi => absurd hi (Nat.not_lt_zero i),
      List.forall_mem_singleton.mpr ⟨'J', by decide, by decide⟩⟩

/-- The nines of the year are a word that no month has. -/
theorem notRecognised_1999 : ¬ in1999.Recognised := by
  change timestampForDateString english "January 5, 1999".toList ["en_US"] ≠ some ⟨5, 1, 1999⟩
  decide

end BirthdayDetectorImpl
end Horo
