/-
# Dates that the detector makes up

When a date that `timestampForDateString` returns is one that the text says:
the day and the year are numbers of the text, and a word of it is one of the
entry for the month.

Words of an entry that have digits (`j4nu4ry`) are compared without them.
`Unmistakable` says that what is left of such a word is no word of another
entry: of the 113 languages of `locdates.json` only one has such words, and
they are left as no other language writes a month.

* `sound_iff_careful`: the date is one that the text says, exactly if no entry
  accepts the text, or no number that is no date stands last of its kind, and a
  word of the text names a month.
-/
import Horo.Birthday.Detector

namespace Horo
namespace BirthdayDetectorImpl

open Lib

variable (R : Resources)

/-- A word of the text that stands for a month in one of the languages. -/
def NamesMonth (dateString : List Char) (languageCodes : List String) (w : List Char) (month : ℕ) : Prop :=
  w ∈ words R dateString ∧ IsMonthWord w ∧
    ∃ entry, (entry, month) ∈ candidates R languageCodes ∧ w ∈ words R entry

/-- A date that the text says. -/
structure Genuine (dateString : List Char) (languageCodes : List String) (date : DateWrapper) : Prop where
  day_range : 1 ≤ date.day.toInt ∧ date.day.toInt ≤ 31
  month_range : 1 ≤ date.month.toInt ∧ date.month.toInt ≤ 12
  year_range : date.year = 0 ∨ 1900 < date.year
  day_read : ∃ token ∈ separateString dateString ' ', numberOf token = some date.day.toInt
  year_read : date.year ≠ 0 →
    ∃ token ∈ separateString dateString ' ', numberOf token = some date.year.toInt
  month_read : ∃ w, NamesMonth R dateString languageCodes w date.month.toInt.toNat

/-- Whatever is returned is a date that the text says, or no date. -/
def Sound (dateString : List Char) (languageCodes : List String) : Prop :=
  ∃ date, timestampForDateString R dateString languageCodes = some date ∧
    (date ≠ .none → Genuine R dateString languageCodes date) ∧
    ((∀ w month, ¬ NamesMonth R dateString languageCodes w month) → date = .none)

/-- A word that an entry has without its digits only is in no entry. -/
def Unmistakable : Prop :=
  ∀ code code', ∀ monthes ∈ R.locdates code, ∀ monthes' ∈ R.locdates code', ∀ entry ∈ monthes,
    ∀ entry' ∈ monthes', ∀ w, IsMonthWord w → w ∈ process R entry → w ∈ words R entry' →
      w ∈ words R entry

/-- The numbers that the words of a text begin with. -/
def numbers (dateString : List Char) : List Int :=
  (separateString dateString ' ').filterMap numberOf

/-- Behind every number of one kind stands one of another. -/
def Followed (p q : Int → Prop) : List Int → Prop
  | [] => True
  | v :: vs => (p v → ∃ u ∈ vs, q u) ∧ Followed p q vs

/-- No entry accepts the text; or none of its words is only white space and, if
there is a number that can be a day, behind every negative number stands a day
and behind every number too large for an `int` a year (or the greatest `int` is
in the text), and a word of the text names a month. -/
def Careful (dateString : List Char) (languageCodes : List String) : Prop :=
  (∃ c ∈ candidates R languageCodes, accepts R dateString c.1 = true) →
    (∀ word ∈ separateString dateString ' ', ∃ c ∈ word, isspace c = false) ∧
      ((∃ v ∈ numbers dateString, v ≠ 0 ∧ v < 32) →
        Followed (fun v => v < 0) (fun v => 0 < v ∧ v < 32) (numbers dateString) ∧
          (2 ^ 31 - 1 ∈ numbers dateString ∨ Followed (fun v => 2 ^ 31 - 1 < v)
            (fun v => 1900 < v ∧ v ≤ 2 ^ 31 - 1) (numbers dateString)) ∧
            ∃ w month, NamesMonth R dateString languageCodes w month)

/-! ### The numbers of a text -/

/-- Every number of the first of two kinds is followed by one of the second
exactly if the last of both is of the second. -/
theorem followed_iff {p q : Int → Prop} [DecidablePred p] [DecidablePred q] (hpq : ∀ v, p v → ¬ q v) :
    ∀ vs : List Int, Followed p q vs ↔ ∀ v ∈ (vs.filter fun v => p v ∨ q v).getLast?, q v
  | [] => iff_of_true trivial (by simp)
  | v :: vs => by
    have ih := followed_iff hpq vs
    rw [Followed, ih, List.filter_cons]
    rcases hlast : (vs.filter fun v => p v ∨ q v).getLast? with _ | u
    · have hempty := List.getLast?_eq_none_iff.mp hlast
      have hq : ¬ ∃ u ∈ vs, q u := by
        rintro ⟨u, hu, hqu⟩
        have hmem : u ∈ vs.filter fun v => p v ∨ q v := List.mem_filter.mpr ⟨hu, by simp [hqu]⟩
        rw [hempty] at hmem
        cases hmem
      rw [hempty]
      by_cases hv : p v ∨ q v
      · simp only [hv, decide_true, if_true, hq, imp_false, List.getLast?_singleton, Option.mem_def,
          Option.some.injEq, forall_eq', reduceCtorEq, false_imp_iff, implies_true, and_true]
        exact ⟨hv.resolve_left, fun hqv hp => hpq v hp hqv⟩
      · obtain ⟨hp, hqv⟩ := not_or.mp hv
        simp [hp, hqv]
    · -- the last number of `vs` is the last of all
      have hsame : (if decide (p v ∨ q v) = true then v :: vs.filter fun v => p v ∨ q v
          else vs.filter fun v => p v ∨ q v).getLast? = some u := by
        split
        · rw [List.getLast?_cons, hlast, Option.getD_some]
        · exact hlast
      rw [hsame]
      refine and_iff_right_of_imp fun hq _ => ⟨u, ?_, hq u rfl⟩
      exact (List.mem_filter.mp (List.mem_of_getLast? hlast)).1

theorem numberOf_isSome_iff {word : List Char} :
    (numberOf word).isSome = true ↔ ∃ c ∈ word, isspace c = false := by
  unfold numberOf
  simp only
  split
  · rename_i h
    rw [List.dropWhile_eq_nil_iff] at h
    simpa using h
  · rename_i h
    rw [List.dropWhile_eq_nil_iff] at h
    simpa using h

/-- The numbers are read if no word is only white space. -/
theorem values_eq_some_iff {dateString : List Char} {vs : List Int} :
    values dateString = some vs ↔
      (∀ word ∈ separateString dateString ' ', ∃ c ∈ word, isspace c = false) ∧
        numbers dateString = vs := by
  unfold values numbers
  rw [mapM_eq_ite]
  simp only [numberOf_isSome_iff]
  split
  · rename_i h
    rw [Option.some.injEq, and_iff_right h]
  · rename_i h
    simp [h]

/-- The last number that can be a day is positive. -/
theorem days_iff (vs : List Int) : (∀ d ∈ (days vs).getLast?, 0 < d) ↔
    Followed (fun v => v < 0) (fun v => 0 < v ∧ v < 32) vs := by
  have hdays : days vs = vs.filter fun v => v < 0 ∨ 0 < v ∧ v < 32 := by
    refine List.filter_congr fun v _ => decide_eq_decide.mpr ?_
    omega
  rw [followed_iff (fun v hneg => by omega), ← hdays]
  refine forall₂_congr fun d hd => ?_
  have hlt := (of_decide_eq_true (List.mem_filter.mp (List.mem_of_getLast? hd)).2).2
  exact (and_iff_left hlt).symm

/-- The last number that can be a year is read as one of the text. -/
theorem years_iff (vs : List Int) : (∀ y ∈ (years vs).getLast?, min (2 ^ 31 - 1) y ∈ vs) ↔
    2 ^ 31 - 1 ∈ vs ∨ Followed (fun v => 2 ^ 31 - 1 < v) (fun v => 1900 < v ∧ v ≤ 2 ^ 31 - 1) vs := by
  have hyears : years vs = vs.filter fun v => 2 ^ 31 - 1 < v ∨ 1900 < v ∧ v ≤ 2 ^ 31 - 1 := by
    refine List.filter_congr fun v _ => decide_eq_decide.mpr ?_
    omega
  rw [followed_iff (fun v hlarge => by omega), ← hyears]
  rcases hlast : (years vs).getLast? with _ | y
  · simp
  · have hmem := List.mem_of_getLast? hlast
    have hlow := of_decide_eq_true (List.mem_filter.mp hmem).2
    simp only [Option.mem_def, Option.some.injEq, forall_eq']
    rcases Int.lt_or_le (2 ^ 31 - 1) y with hlarge | hsmall
    · rw [min_eq_left (by omega)]
      exact (or_iff_left (by omega)).symm
    · rw [min_eq_right hsmall]
      exact iff_of_true (List.mem_filter.mp hmem).1 (.inr ⟨hlow, hsmall⟩)

variable {R}

theorem dateFrom_of_getLast? (month : ℕ) {vs : List Int} {d : Int} (h : (days vs).getLast? = some d) :
    dateFrom month vs = ⟨clamp d, Int32.ofNat month, clamp ((years vs).getLast?.getD 0)⟩ := by
  simp only [dateFrom, h]

theorem dateFrom_ne_none (month : ℕ) {vs : List Int} {d : Int} (h : (days vs).getLast? = some d) :
    dateFrom month vs ≠ .none := by
  rw [dateFrom_of_getLast? month h]
  intro he
  have hne : d ≠ 0 := (of_decide_eq_true (List.mem_filter.mp (List.mem_of_getLast? h)).2).1
  exact hne (clamp_eq_zero.mp (congrArg DateWrapper.day he))

/-- When the date of an accepted text is one that it says. -/
theorem genuine_dateFrom_iff {dateString : List Char} {languageCodes : List String} {vs : List Int}
    {d : Int} {month : ℕ} (hvs : values dateString = some vs) (hlast : (days vs).getLast? = some d)
    (hmonth : 1 ≤ month ∧ month ≤ 12) :
    Genuine R dateString languageCodes (dateFrom month vs) ↔
      0 < d ∧ (∀ y ∈ (years vs).getLast?, min (2 ^ 31 - 1) y ∈ vs) ∧
        ∃ w, NamesMonth R dateString languageCodes w month := by
  have hread := fun v => mem_of_mapM hvs v
  obtain ⟨hmem, hlt⟩ := List.mem_filter.mp (List.mem_of_getLast? hlast)
  obtain ⟨hne, hlt⟩ := of_decide_eq_true hlt
  have hdate := dateFrom_of_getLast? month hlast
  have hday : (dateFrom month vs).day.toInt = max (-2 ^ 31) (min (2 ^ 31 - 1) d) := by
    rw [hdate, toInt_clamp]
  have hmonthInt : (dateFrom month vs).month.toInt = month := by rw [hdate, toInt_month hmonth]
  have hyear : (dateFrom month vs).year = clamp ((years vs).getLast?.getD 0) := by rw [hdate]
  have hyears : ∀ y, (years vs).getLast? = some y → 1900 < y := fun y hy =>
    of_decide_eq_true (List.mem_filter.mp (List.mem_of_getLast? hy)).2
  have hzero : clamp 0 = 0 := clamp_eq_zero.mpr rfl
  constructor
  · intro h
    refine ⟨by have := h.day_range.1; omega, fun y hy => ?_, ?_⟩
    · rw [hy, Option.getD_some] at hyear
      have hlow := hyears y hy
      have hmin : max (-2 ^ 31) (min (2 ^ 31 - 1) y) = min (2 ^ 31 - 1) y := by omega
      have htoken := (hread _).mpr (h.year_read (by rw [hyear, ne_eq, clamp_eq_zero]; omega))
      rwa [hyear, toInt_clamp, hmin] at htoken
    · obtain ⟨w, hw⟩ := h.month_read
      rw [hmonthInt, Int.toNat_natCast] at hw
      exact ⟨w, hw⟩
  · rintro ⟨hpos, hclipped, w, hw⟩
    have hdayInt : (dateFrom month vs).day.toInt = d := by omega
    refine ⟨by omega, by omega, ?_, ?_, ?_, ⟨w, ?_⟩⟩
    · rcases hy : (years vs).getLast? with _ | y
      · rw [hyear, hy]
        exact Or.inl hzero
      · rw [hyear, hy]
        exact Or.inr (lt_clamp.mpr (hyears y hy))
    · rw [hdayInt]
      exact (hread d).mp hmem
    · intro hyne
      rcases hy : (years vs).getLast? with _ | y
      · rw [hyear, hy] at hyne
        exact absurd hzero hyne
      · have hlow := hyears y hy
        have hmin : max (-2 ^ 31) (min (2 ^ 31 - 1) y) = min (2 ^ 31 - 1) y := by omega
        rw [hyear, hy, Option.getD_some, toInt_clamp, hmin]
        exact (hread _).mp (hclipped y hy)
    · rwa [hmonthInt, Int.toNat_natCast]

/-- A word of the text stands for the month of an entry that accepts it as soon
as it stands for any month. -/
theorem namesMonth_iff (hR : Unmistakable R) {dateString : List Char} {languageCodes : List String}
    {entry : List Char} {month : ℕ} (hmem : (entry, month) ∈ candidates R languageCodes)
    (haccepts : accepts R dateString entry = true) :
    (∃ w, NamesMonth R dateString languageCodes w month) ↔
      ∃ w month, NamesMonth R dateString languageCodes w month := by
  refine ⟨fun ⟨w, hw⟩ => ⟨w, month, hw⟩, ?_⟩
  have htable : ∀ c ∈ candidates R languageCodes, ∃ code, ∃ monthes ∈ R.locdates code, c.1 ∈ monthes := by
    intro c hc
    obtain ⟨code, -, hcode⟩ := List.mem_flatMap.mp hc
    rcases hmonthes : R.locdates code with _ | monthes
    · rw [hmonthes] at hcode
      cases hcode
    · rw [hmonthes, Option.getD_some] at hcode
      exact ⟨code, monthes, hmonthes, List.fst_mem_of_mem_zipIdx hcode⟩
  rintro ⟨w, month', hword, hmonthWord, entry', hmem', hentry'⟩
  obtain ⟨code, monthes, hmonthes, hin⟩ := htable _ hmem
  obtain ⟨code', monthes', hmonthes', hin'⟩ := htable _ hmem'
  have hcompared := (accepts_iff R).mp haccepts w (mem_process_of_isMonthWord R hword hmonthWord)
  exact ⟨w, hword, hmonthWord, entry, hmem, hR code code' monthes hmonthes monthes' hmonthes' entry hin
    entry' hin' w hmonthWord hcompared hentry'⟩

/-- What is returned of a text that an entry accepts. -/
theorem sound_iff_of_find {dateString : List Char} {languageCodes : List String} {entry : List Char}
    {month : ℕ}
    (hfind : (candidates R languageCodes).find? (fun c => accepts R dateString c.1) = some (entry, month)) :
    Sound R dateString languageCodes ↔ ∃ vs, values dateString = some vs ∧
      ∀ d ∈ (days vs).getLast?, 0 < d ∧ (∀ y ∈ (years vs).getLast?, min (2 ^ 31 - 1) y ∈ vs) ∧
        ∃ w, NamesMonth R dateString languageCodes w month := by
  have hmonth := month_of_mem_candidates R (List.mem_of_find?_eq_some hfind)
  have hdate : timestampForDateString R dateString languageCodes =
      (values dateString).map (dateFrom month) := by
    rw [timestampForDateString_eq, monthIndex_eq, hfind]
    rfl
  constructor
  · rintro ⟨date, hreturned, hsound, -⟩
    obtain ⟨vs, hvs, hfrom⟩ := Option.map_eq_some_iff.mp (hdate.symm.trans hreturned)
    refine ⟨vs, hvs, fun d hd => (genuine_dateFrom_iff hvs hd hmonth).mp ?_⟩
    rw [hfrom]
    exact hsound (hfrom ▸ dateFrom_ne_none month hd)
  · rintro ⟨vs, hvs, hlast⟩
    rw [hvs, Option.map_some] at hdate
    rcases hd : (days vs).getLast? with _ | d
    · have hnone : dateFrom month vs = .none := by simp only [dateFrom, hd]
      exact ⟨_, hdate, fun h => absurd hnone h, fun _ => hnone⟩
    · have hgenuine := (genuine_dateFrom_iff hvs hd hmonth).mpr (hlast d hd)
      obtain ⟨w, hw⟩ := hgenuine.month_read
      exact ⟨_, hdate, fun _ => hgenuine, fun hno => absurd hw (hno w _)⟩

/-- **Every date that is returned is one that the text says, exactly if the
text is careful.** -/
theorem sound_iff_careful (hR : Unmistakable R) (dateString : List Char) (languageCodes : List String) :
    Sound R dateString languageCodes ↔ Careful R dateString languageCodes := by
  rcases hfind : (candidates R languageCodes).find? fun c => accepts R dateString c.1 with _ | ⟨entry, month⟩
  · have hdate : timestampForDateString R dateString languageCodes = some .none := by
      rw [timestampForDateString_eq, monthIndex_eq, hfind]
      rfl
    have hno : ¬ ∃ c ∈ candidates R languageCodes, accepts R dateString c.1 = true := by
      simpa using List.find?_eq_none.mp hfind
    exact iff_of_true ⟨.none, hdate, fun h => absurd rfl h, fun _ => rfl⟩ fun h => absurd h hno
  · have hmem := List.mem_of_find?_eq_some hfind
    have haccepts := List.find?_some hfind
    have haccepted : ∃ c ∈ candidates R languageCodes, accepts R dateString c.1 = true :=
      ⟨_, hmem, haccepts⟩
    unfold Careful
    rw [sound_iff_of_find hfind, namesMonth_iff hR hmem haccepts, imp_iff_right haccepted, ← days_iff,
      ← years_iff]
    have hday : ∀ d ∈ (days (numbers dateString)).getLast?, ∃ v ∈ numbers dateString, v ≠ 0 ∧ v < 32 := by
      intro d hd
      obtain ⟨hmem, hlt⟩ := List.mem_filter.mp (List.mem_of_getLast? hd)
      exact ⟨d, hmem, of_decide_eq_true hlt⟩
    constructor
    · rintro ⟨vs, hvs, hlast⟩
      obtain ⟨hread, rfl⟩ := values_eq_some_iff.mp hvs
      refine ⟨hread, fun ⟨v, hv, hrange⟩ => ?_⟩
      have hne : days (numbers dateString) ≠ [] :=
        List.ne_nil_of_mem (List.mem_filter.mpr ⟨hv, decide_eq_true hrange⟩)
      obtain ⟨-, hyears, hnames⟩ := hlast _ (List.getLast?_eq_some_getLast hne)
      exact ⟨fun d hd => (hlast d hd).1, hyears, hnames⟩
    · rintro ⟨hread, hcareful⟩
      refine ⟨_, values_eq_some_iff.mpr ⟨hread, rfl⟩, fun d hd => ?_⟩
      obtain ⟨hpositive, hyears, hnames⟩ := hcareful (hday d hd)
      exact ⟨hpositive d hd, hyears, hnames⟩

/-- The words of the English table are compared as they are. -/
theorem english_unmistakable : Unmistakable english := by
  have hwords : ∀ entry ∈ (english.locdates "en_US").getD [], ∀ w ∈ words english entry,
      IsMonthWord (residue w) → residue w = w := by decide +kernel
  intro code code' monthes hmonthes monthes' _ entry hentry entry' _ w hw hcompared _
  obtain ⟨⟨w', hw', rfl⟩, -⟩ := (mem_process english).mp hcompared
  have hcode : code = "en_US" := by
    by_contra hne
    have hnone : english.locdates code = none := if_neg hne
    rw [hnone] at hmonthes
    cases hmonthes
  subst hcode
  rw [hwords entry (by rw [Option.mem_def.mp hmonthes]; exact hentry) w' hw' hw]
  exact hw'

/-- A date with a month, a day and a year. -/
theorem may_is_genuine : Sound english "May 5, 1990".toList ["en_US"] := by
  have hwords : separateString "May 5, 1990".toList ' ' =
      ["May".toList, "5,".toList, "1990".toList] := by decide
  have hnumbers : numbers "May 5, 1990".toList = [0, 5, 1990] := by decide
  refine (sound_iff_careful english_unmistakable _ _).mpr fun _ => ⟨?_, fun _ => ?_⟩
  · rw [hwords]
    simp [isspace]
  rw [hnumbers]
  refine ⟨by simp [Followed], .inr (by simp [Followed]), "may".toList, 5, by decide, by decide, ?_⟩
  exact ⟨"may 20, 1989".toList, by decide, by decide⟩

/-- A number alone is taken for a day of January. -/
theorem five_is_in_january :
    timestampForDateString english "5".toList ["en_US"] = some ⟨5, 1, 0⟩ ∧
      ¬ Sound english "5".toList ["en_US"] := by
  have hdate : timestampForDateString english "5".toList ["en_US"] = some ⟨5, 1, 0⟩ := by decide +kernel
  have hwords : words english "5".toList = ["5".toList] := by decide
  refine ⟨hdate, ?_⟩
  rintro ⟨date, hreturned, hsound, -⟩
  obtain rfl := Option.some.inj (hdate.symm.trans hreturned)
  obtain ⟨w, hmem, hmonth, -⟩ := (hsound (by decide)).month_read
  rw [hwords, List.mem_singleton] at hmem
  rw [hmem] at hmonth
  exact absurd hmonth (by decide)

end BirthdayDetectorImpl
end Horo
