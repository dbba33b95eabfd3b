/-
# The calendar of the C library

The proleptic Gregorian calendar, days counted from 1 January 1970, and the
broken-down times of `time.h` over it, in a zone with a constant offset and no
summer time.

* `dayNumber_ofDayNumber`, `ofDayNumber_dayNumber`: dates are days.
* `timegm_localtime`, `timegm_mday`: times are broken down and put together
  again, and another day of the month is as many days away.
* `ofDayNumber_succ`: the next day is in the same month, or the first of another.
-/
import Mathlib.Algebra.GroupWithZero.Nat
import Mathlib.Data.Int.Order.Basic

namespace Horo
namespace Lib
namespace Calendar

/-! ### Years and months -/

def isLeap (y : Int) : Bool := y % 4 == 0 && (y % 100 != 0 || y % 400 == 0)

def monthLengths (leap : Bool) : List ℕ :=
  [31, if leap then 29 else 28, 31, 30, 31, 30, 31, 31, 30, 31, 30, 31]

/-- The first day of a year. -/
def firstOfYear (y : Int) : Int :=
  365 * (y - 1) + (y - 1) / 4 - (y - 1) / 100 + (y - 1) / 400 - 719162

theorem firstOfYear_succ (y : Int) :
    firstOfYear (y + 1) = firstOfYear y + (monthLengths (isLeap y)).sum := by
  have hsum : ((monthLengths (isLeap y)).sum : Int) = if isLeap y then 366 else 365 := by
    cases isLeap y <;> rfl
  rw [hsum]
  unfold firstOfYear
  by_cases h : isLeap y
  · rw [if_pos h]
    simp only [isLeap, Bool.and_eq_true, Bool.or_eq_true, beq_iff_eq, bne_iff_ne] at h
    omega
  · rw [if_neg h]
    simp only [isLeap, Bool.and_eq_true, Bool.or_eq_true, beq_iff_eq, bne_iff_ne] at h
    omega

theorem firstOfYear_mono {y z : Int} (h : y ≤ z) : firstOfYear y ≤ firstOfYear z := by
  unfold firstOfYear
  omega

/-- The year of a day: the mean length of a year gives it but for one. -/
def yearOf (k : Int) : Int :=
  let y := 400 * (k + 719162) / 146097 + 1
  if k < firstOfYear y then y - 1 else if firstOfYear (y + 1) ≤ k then y + 1 else y

theorem yearOf_spec (k : Int) : firstOfYear (yearOf k) ≤ k ∧ k < firstOfYear (yearOf k + 1) := by
  have hlow : firstOfYear (400 * (k + 719162) / 146097 + 1 - 1) ≤ k := by
    unfold firstOfYear
    omega
  have hhigh : k < firstOfYear (400 * (k + 719162) / 146097 + 1 + 1 + 1) := by
    unfold firstOfYear
    omega
  unfold yearOf
  simp only
  split
  · rename_i h
    rw [Int.sub_add_cancel]
    exact ⟨hlow, h⟩
  · rename_i h
    split
    · rename_i h'
      exact ⟨h', hhigh⟩
    · rename_i h'
      exact ⟨Int.not_lt.mp h, Int.not_le.mp h'⟩

theorem yearOf_eq {k y : Int} (hlow : firstOfYear y ≤ k) (hhigh : k < firstOfYear (y + 1)) :
    yearOf k = y := by
  obtain ⟨hlow', hhigh'⟩ := yearOf_spec k
  by_contra hne
  rcases Int.lt_or_gt_of_ne hne with h | h
  · have hmono := firstOfYear_mono (show yearOf k + 1 ≤ y by omega)
    omega
  · have hmono := firstOfYear_mono (show y + 1 ≤ yearOf k by omega)
    omega

/-- The part of a sequence of lengths that a position falls into, and the
position in it. -/
def locate : List ℕ → ℕ → ℕ × ℕ
  | [], r => (0, r)
  | l :: ls, r => if r < l then (0, r) else ((locate ls (r - l)).1 + 1, (locate ls (r - l)).2)

theorem locate_spec : ∀ {ls : List ℕ} {r : ℕ}, r < ls.sum →
    (locate ls r).1 < ls.length ∧ (locate ls r).2 < ls.getD (locate ls r).1 0 ∧
      (ls.take (locate ls r).1).sum + (locate ls r).2 = r
  | [], _, h => absurd h (Nat.not_lt_zero _)
  | l :: ls, r, h => by
    unfold locate
    by_cases hr : r < l
    · simp [hr]
    · rw [List.sum_cons] at h
      obtain ⟨hlen, hrem, hsum⟩ := @locate_spec ls (r - l) (by omega)
      rw [if_neg hr]
      refine ⟨by simpa using hlen, by simpa using hrem, ?_⟩
      rw [List.take_succ_cons, List.sum_cons]
      omega

theorem locate_eq : ∀ {ls : List ℕ} {i r : ℕ}, i < ls.length → r < ls.getD i 0 →
    locate ls ((ls.take i).sum + r) = (i, r)
  | [], _, _, h, _ => absurd h (Nat.not_lt_zero _)
  | l :: ls, 0, r, _, hr => by
    have hr' : r < l := by simpa using hr
    simp [locate, hr']
  | l :: ls, i + 1, r, hi, hr => by
    have ih := @locate_eq ls i r (by simpa using hi) (by simpa using hr)
    have hsub : l + (ls.take i).sum + r - l = (ls.take i).sum + r := by omega
    rw [List.take_succ_cons, List.sum_cons, locate, if_neg (by omega), hsub, ih]

theorem sum_take_add_getD_le : ∀ (ls : List ℕ) (i : ℕ), (ls.take i).sum + ls.getD i 0 ≤ ls.sum
  | [], i => by simp
  | l :: ls, 0 => by simp
  | l :: ls, i + 1 => by
    have ih := sum_take_add_getD_le ls i
    simp only [List.take_succ_cons, List.sum_cons, List.getD_cons_succ]
    omega

/-! ### Dates -/

/-- A day of the calendar. -/
structure Date where
  year : Int
  month : ℕ
  day : ℕ
  month_pos : 0 < month
  month_le : month ≤ 12
  day_pos : 0 < day
  day_le : day ≤ (monthLengths (isLeap year)).getD (month - 1) 0
  deriving DecidableEq, Repr

/-- The day of a year, a month of it counted from 0 and a day of it counted
from 1, in whatever range they are. -/
def dayNumberOf (year mon mday : Int) : Int :=
  firstOfYear (year + mon / 12) +
    ((monthLengths (isLeap (year + mon / 12))).take (mon % 12).toNat).sum + (mday - 1)

def Date.dayNumber (d : Date) : Int := dayNumberOf d.year ((d.month : Int) - 1) d.day

theorem Date.dayNumber_eq (d : Date) : d.dayNumber = firstOfYear d.year +
    (((monthLengths (isLeap d.year)).take (d.month - 1)).sum + (d.day - 1) : ℕ) := by
  have hpos := d.month_pos
  have hle := d.month_le
  have hday := d.day_pos
  have hdiv : ((d.month : Int) - 1) / 12 = 0 := by omega
  have hmod : (((d.month : Int) - 1) % 12).toNat = d.month - 1 := by omega
  unfold dayNumber dayNumberOf
  rw [hdiv, hmod, Int.add_zero]
  omega

theorem length_monthLengths (leap : Bool) : (monthLengths leap).length = 12 := rfl

theorem dayOfYear_lt (k : Int) :
    (k - firstOfYear (yearOf k)).toNat < (monthLengths (isLeap (yearOf k))).sum := by
  obtain ⟨hlow, hhigh⟩ := yearOf_spec k
  rw [firstOfYear_succ] at hhigh
  omega

def ofDayNumber (k : Int) : Date where
  year := yearOf k
  month := (locate (monthLengths (isLeap (yearOf k))) (k - firstOfYear (yearOf k)).toNat).1 + 1
  day := (locate (monthLengths (isLeap (yearOf k))) (k - firstOfYear (yearOf k)).toNat).2 + 1
  month_pos := Nat.succ_pos _
  month_le := (locate_spec (dayOfYear_lt k)).1
  day_pos := Nat.succ_pos _
  day_le := (locate_spec (dayOfYear_lt k)).2.1

@[simp] theorem dayNumber_ofDayNumber (k : Int) : (ofDayNumber k).dayNumber = k := by
  have hsum := (locate_spec (dayOfYear_lt k)).2.2
  have hlow := (yearOf_spec k).1
  rw [Date.dayNumber_eq]
  simp only [ofDayNumber, Nat.add_sub_cancel]
  rw [hsum]
  omega

theorem firstOfYear_le_dayNumber (d : Date) :
    firstOfYear d.year ≤ d.dayNumber ∧ d.dayNumber < firstOfYear (d.year + 1) := by
  have hle := sum_take_add_getD_le (monthLengths (isLeap d.year)) (d.month - 1)
  have hday := d.day_le
  have hpos := d.day_pos
  rw [firstOfYear_succ, Date.dayNumber_eq]
  omega

@[simp] theorem ofDayNumber_dayNumber (d : Date) : ofDayNumber d.dayNumber = d := by
  obtain ⟨hlow, hhigh⟩ := firstOfYear_le_dayNumber d
  have hyear : yearOf d.dayNumber = d.year := yearOf_eq hlow hhigh
  have hrest : (d.dayNumber - firstOfYear d.year).toNat =
      ((monthLengths (isLeap d.year)).take (d.month - 1)).sum + (d.day - 1) := by
    rw [Date.dayNumber_eq]
    omega
  have hday := d.day_le
  have hdpos := d.day_pos
  have hmonth := d.month_le
  have hmpos := d.month_pos
  have hlocate : locate (monthLengths (isLeap d.year)) (d.dayNumber - firstOfYear d.year).toNat =
      (d.month - 1, d.day - 1) := by
    rw [hrest]
    exact locate_eq (by rw [length_monthLengths]; omega) (by omega)
  obtain ⟨year, month, day, _, _, _, _⟩ := d
  simp only [ofDayNumber, hyear, hlocate, Date.mk.injEq, true_and]
  simp only at hdpos hmpos
  omega

theorem dayNumber_injective {d e : Date} (h : d.dayNumber = e.dayNumber) : d = e := by
  rw [← ofDayNumber_dayNumber d, h, ofDayNumber_dayNumber]

theorem Date.day_le_thirtyOne (d : Date) : d.day ≤ 31 := by
  have hlengths : ∀ leap : Bool, ∀ i < 12, (monthLengths leap).getD i 0 ≤ 31 := by decide
  have hmonth := d.month_le
  have hpos := d.month_pos
  exact Nat.le_trans d.day_le (hlengths _ _ (by omega))

theorem dayNumberOf_mday (year mon mday mday' : Int) :
    dayNumberOf year mon mday' = dayNumberOf year mon mday + (mday' - mday) := by
  unfold dayNumberOf
  omega

/-- The first day of the month. -/
def Date.firstOfMonth (d : Date) : Date where
  year := d.year
  month := d.month
  day := 1
  month_pos := d.month_pos
  month_le := d.month_le
  day_pos := Nat.one_pos
  day_le := Nat.le_trans d.day_pos d.day_le

theorem dayNumber_firstOfMonth (d : Date) :
    d.firstOfMonth.dayNumber = d.dayNumber - ((d.day : Int) - 1) := by
  unfold Date.dayNumber Date.firstOfMonth dayNumberOf
  simp only
  omega

/-- Two dates of one month of one year. -/
def Date.SameMonth (d e : Date) : Prop := d.year = e.year ∧ d.month = e.month

instance (d e : Date) : Decidable (d.SameMonth e) := inferInstanceAs (Decidable (_ ∧ _))

theorem Date.SameMonth.dayNumber {d e : Date} (h : d.SameMonth e) :
    e.dayNumber = d.dayNumber + ((e.day : Int) - d.day) := by
  rw [Date.dayNumber, Date.dayNumber, h.1, h.2, dayNumberOf_mday e.year _ d.day]

/-- The day after `d`, if the month has one. -/
def Date.nextOfMonth (d : Date) (h : d.day < (monthLengths (isLeap d.year)).getD (d.month - 1) 0) : Date where
  year := d.year
  month := d.month
  day := d.day + 1
  month_pos := d.month_pos
  month_le := d.month_le
  day_pos := Nat.succ_pos _
  day_le := h

/-- **The next day** is the next one of the month, or the first of another one
after at least 28 days. -/
theorem ofDayNumber_succ (k : Int) :
    ((ofDayNumber k).SameMonth (ofDayNumber (k + 1)) ∧
        (ofDayNumber (k + 1)).day = (ofDayNumber k).day + 1) ∨
      (¬ (ofDayNumber k).SameMonth (ofDayNumber (k + 1)) ∧ (ofDayNumber (k + 1)).day = 1 ∧
        28 ≤ (ofDayNumber k).day) := by
  have hk := dayNumber_ofDayNumber k
  have hnext := dayNumber_ofDayNumber (k + 1)
  generalize ofDayNumber k = d at hk ⊢
  generalize ofDayNumber (k + 1) = e at hnext ⊢
  rcases Nat.lt_or_ge d.day ((monthLengths (isLeap d.year)).getD (d.month - 1) 0) with hlt | hge
  · left
    have hsame : d.SameMonth (d.nextOfMonth hlt) := ⟨rfl, rfl⟩
    have hday : (d.nextOfMonth hlt).day = d.day + 1 := rfl
    have hnumber := hsame.dayNumber
    have he : d.nextOfMonth hlt = e := dayNumber_injective (by omega)
    rw [← he]
    exact ⟨hsame, hday⟩
  · right
    have hlengths : ∀ leap : Bool, ∀ i < 12, 28 ≤ (monthLengths leap).getD i 0 := by decide
    have hlength := hlengths (isLeap d.year) (d.month - 1) (by have := d.month_le; have := d.month_pos; omega)
    have hdiff : ¬ d.SameMonth e := by
      intro h
      have hnumber := h.dayNumber
      have hle := e.day_le
      rw [← h.1, ← h.2] at hle
      omega
    refine ⟨hdiff, ?_, by omega⟩
    -- otherwise the day before `e` is in its month, and it is `d`
    by_contra hne
    have hpos := e.day_pos
    let b : Date := { e with
      day := e.day - 1, day_pos := by omega, day_le := by have := e.day_le; omega }
    have hsame : b.SameMonth e := ⟨rfl, rfl⟩
    have hnumber := hsame.dayNumber
    have hday : b.day = e.day - 1 := rfl
    have hb : b = d := dayNumber_injective (by omega)
    exact hdiff (hb ▸ hsame)

/-- The day of the week, Sunday being 0. -/
def weekday (k : Int) : Int := (k + 4) % 7

/-- The Monday of the week. -/
def monday (k : Int) : Int := k - (k + 3) % 7

/-! ### Broken-down times -/

/-- `struct tm`, without the name of the zone. -/
structure Tm where
  sec : Int
  min : Int
  hour : Int
  mday : Int
  mon : Int
  year : Int
  wday : Int
  yday : Int
  isdst : Int
  gmtoff : Int
  deriving DecidableEq, Repr

/-- `localtime`, where clocks are `gmtoff` seconds ahead of UTC. -/
def localtime (gmtoff time : Int) : Tm :=
  let k := (time + gmtoff) / 86400
  let seconds := (time + gmtoff) % 86400
  let d := ofDayNumber k
  { sec := seconds % 60, min := seconds / 60 % 60, hour := seconds / 3600
    mday := d.day, mon := (d.month : Int) - 1, year := d.year - 1900
    wday := weekday k, yday := k - firstOfYear d.year, isdst := 0, gmtoff := gmtoff }

/-- `timegm`: the fields may be out of their ranges. -/
def timegm (tm : Tm) : Int :=
  86400 * dayNumberOf (tm.year + 1900) tm.mon tm.mday + 3600 * tm.hour + 60 * tm.min + tm.sec

/-- `mktime`, with what it leaves in its argument. -/
def mktime (gmtoff : Int) (tm : Tm) : Int × Tm :=
  (timegm tm - gmtoff, localtime gmtoff (timegm tm - gmtoff))

theorem dayNumberOf_localtime (gmtoff time : Int) :
    dayNumberOf ((localtime gmtoff time).year + 1900) (localtime gmtoff time).mon
      (localtime gmtoff time).mday = (time + gmtoff) / 86400 := by
  have hday := dayNumber_ofDayNumber ((time + gmtoff) / 86400)
  unfold Date.dayNumber at hday
  simp only [localtime, Int.sub_add_cancel]
  exact hday

@[simp] theorem timegm_localtime (gmtoff time : Int) :
    timegm (localtime gmtoff time) = time + gmtoff := by
  unfold timegm
  rw [dayNumberOf_localtime]
  simp only [localtime]
  omega

/-- Another day of the month. -/
theorem timegm_mday (tm : Tm) (mday : Int) :
    timegm { tm with mday := mday } = timegm tm + 86400 * (mday - tm.mday) := by
  unfold timegm
  simp only
  rw [dayNumberOf_mday _ _ tm.mday]
  omega

end Calendar
end Lib
end Horo
