/-
# Decimal numerals

Integers and finite decimals as texts. `intDigits` is what `to_string` and
`%d` print, `stoi` reads a text back the way the C library does: blanks, a
sign, the digits there are, and nothing said about what follows.
-/
import Mathlib.Data.Bool.AllAny
import Mathlib.Data.Int.Order.Basic
import Mathlib.Data.List.DropRight
import Mathlib.Tactic.Ring

namespace Horo
namespace Lib

/-- The decimal digits of an integer, with its sign. -/
def intDigits (i : Int) : List Char :=
  if i < 0 then '-' :: Nat.toDigits 10 i.natAbs else Nat.toDigits 10 i.natAbs

theorem isDigit_of_mem_toDigits {n : ℕ} {c : Char} (h : c ∈ Nat.toDigits 10 n) : c.isDigit = true :=
  Nat.isDigit_of_mem_toDigits (by decide) (by decide) h

/-- The digits of a number begin with a digit. -/
theorem exists_toDigits_eq_cons (n : ℕ) : ∃ c cs, Nat.toDigits 10 n = c :: cs ∧ c.isDigit = true := by
  rcases h : Nat.toDigits 10 n with _ | ⟨c, cs⟩
  · exact absurd h Nat.toDigits_ne_nil
  · exact ⟨c, cs, rfl, isDigit_of_mem_toDigits (h ▸ List.mem_cons_self)⟩

/-- More digits, a larger number. -/
theorem le_ofDigitChars : ∀ (cs : List Char) (n : ℕ), n ≤ Nat.ofDigitChars 10 cs n
  | [], n => by rw [Nat.ofDigitChars_nil]
  | c :: cs, n => by
    rw [Nat.ofDigitChars_cons]
    have h := le_ofDigitChars cs (10 * n + (c.toNat - '0'.toNat))
    omega

/-- Digits that are appended to a number. -/
theorem toDigits_ofDigitChars : ∀ {cs : List Char} {n : ℕ}, 0 < n →
    (∀ c ∈ cs, c.isDigit = true) → Nat.toDigits 10 (Nat.ofDigitChars 10 cs n) = Nat.toDigits 10 n ++ cs
  | [], n, _, _ => by rw [Nat.ofDigitChars_nil, List.append_nil]
  | c :: cs, n, hn, hcs => by
    have hc : c.isDigit = true := hcs c List.mem_cons_self
    have hrange : 48 ≤ c.toNat ∧ c.toNat ≤ 57 := Char.isDigit_iff_toNat.mp hc
    have hdigit : (c.toNat - '0'.toNat).digitChar = c ∧ c.toNat - '0'.toNat < 10 := by
      have hlt : c.toNat - 48 < 10 := by omega
      refine ⟨Char.toNat_inj.mp ?_, hlt⟩
      have h := Nat.toNat_digitChar_of_lt_ten hlt
      change (c.toNat - 48).digitChar.toNat = c.toNat
      omega
    rw [Nat.ofDigitChars_cons, toDigits_ofDigitChars (by omega) fun x hx =>
      hcs x (List.mem_cons_of_mem _ hx), ← Nat.toDigits_append_toDigits (by decide) hn hdigit.2,
      Nat.toDigits_of_lt_base hdigit.2, hdigit.1, List.append_assoc, List.singleton_append]

theorem ofDigitChars_lt : ∀ {cs : List Char}, (∀ c ∈ cs, c.isDigit = true) → ∀ n : ℕ,
    Nat.ofDigitChars 10 cs n < (n + 1) * 10 ^ cs.length
  | [], _, n => by simp
  | c :: cs, hcs, n => by
    have hrange : 48 ≤ c.toNat ∧ c.toNat ≤ 57 := Char.isDigit_iff_toNat.mp (hcs c List.mem_cons_self)
    have hlt := ofDigitChars_lt (fun x hx => hcs x (List.mem_cons_of_mem c hx)) (10 * n + (c.toNat - 48))
    have hstep : (10 * n + (c.toNat - 48) + 1) * 10 ^ cs.length ≤ 10 * (n + 1) * 10 ^ cs.length :=
      Nat.mul_le_mul_right _ (by omega)
    rw [Nat.ofDigitChars_cons, List.length_cons, pow_succ]
    calc Nat.ofDigitChars 10 cs (10 * n + (c.toNat - 48)) < _ := hlt
      _ ≤ 10 * (n + 1) * 10 ^ cs.length := hstep
      _ = (n + 1) * (10 ^ cs.length * 10) := by ring

/-- A number that is read of some digits has not more of them. -/
theorem length_toDigits_ofDigitChars {cs : List Char} (hne : cs ≠ [])
    (hcs : ∀ c ∈ cs, c.isDigit = true) :
    (Nat.toDigits 10 (Nat.ofDigitChars 10 cs 0)).length ≤ cs.length := by
  apply (Nat.length_toDigits_le_iff (by decide) (List.length_pos_iff.mpr hne)).mpr
  have hlt := ofDigitChars_lt hcs 0
  rwa [Nat.zero_add, Nat.one_mul] at hlt

theorem intDigits_ne_nil (i : Int) : intDigits i ≠ [] := by
  unfold intDigits
  split
  · exact List.cons_ne_nil _ _
  · exact Nat.toDigits_ne_nil

/-- A numeral consists of digits, after a sign. -/
theorem mem_intDigits {i : Int} {c : Char} (h : c ∈ intDigits i) : c = '-' ∨ c.isDigit = true := by
  unfold intDigits at h
  split at h
  · rcases List.mem_cons.mp h with rfl | h
    · exact .inl rfl
    · exact .inr (isDigit_of_mem_toDigits h)
  · exact .inr (isDigit_of_mem_toDigits h)

theorem intDigits_injective {i j : Int} (h : intDigits i = intDigits j) : i = j := by
  have hdash : ∀ n : ℕ, '-' ∉ Nat.toDigits 10 n := fun n hm => by cases isDigit_of_mem_toDigits hm
  have habs : ∀ {m n : ℕ}, Nat.toDigits 10 m = Nat.toDigits 10 n → m = n := by
    intro m n hmn
    rw [← Nat.ofDigitChars_ten_toDigits (n := m), hmn, Nat.ofDigitChars_ten_toDigits]
  unfold intDigits at h
  split at h <;> split at h
  · have hij := habs (List.cons.inj h).2
    omega
  · exact absurd (h ▸ List.mem_cons_self) (hdash _)
  · exact absurd (h ▸ List.mem_cons_self) (hdash _)
  · have hij := habs h
    omega

/-- The digits at the start of a text. -/
def digitsOf (cs : List Char) : List Char := cs.takeWhile Char.isDigit

/-- A numeral followed by something else is read up to its end. -/
theorem digitsOf_append {ds rest : List Char} (hds : ∀ c ∈ ds, c.isDigit = true)
    (hrest : ∀ c ∈ rest.head?, c.isDigit = false) : digitsOf (ds ++ rest) = ds := by
  unfold digitsOf
  rw [List.takeWhile_append_of_pos hds]
  rcases rest with _ | ⟨c, cs⟩
  · simp
  · rw [List.takeWhile_cons_of_neg (by simpa using hrest c rfl), List.append_nil]

/-! ### Finite decimals -/

/-- `mantissa / 10 ^ scale`. -/
structure Decimal where
  mantissa : Int
  scale : ℕ
  deriving DecidableEq, Repr

namespace Decimal

/-- The integer part, towards zero. -/
def trunc (d : Decimal) : Int := d.mantissa.tdiv (10 ^ d.scale)

/-- The number is an integer. -/
def isIntegral (d : Decimal) : Bool := d.mantissa % 10 ^ d.scale == 0

/-- `m / 10 ^ scale` in lowest terms. -/
def reduce (m : Int) : ℕ → Decimal
  | 0 => ⟨m, 0⟩
  | scale + 1 => if m % 10 = 0 then reduce (m / 10) scale else ⟨m, scale + 1⟩

/-- The number in lowest terms. -/
def norm (d : Decimal) : Decimal := reduce d.mantissa d.scale

/-- `m * 10 ^ e`. -/
def ofExponent (m : Int) (e : Int) : Decimal :=
  if 0 ≤ e then ⟨m * 10 ^ e.toNat, 0⟩ else ⟨m, (-e).toNat⟩

/-- The significant digits of `m / 10 ^ scale`, rounded to `precision` of them
and without zeros at the end, and the power of ten of the first. -/
def significant (precision m scale : ℕ) : List Char × Int :=
  let dropped := (Nat.toDigits 10 m).length - precision
  let q := if dropped = 0 then m else (m + 5 * 10 ^ (dropped - 1)) / 10 ^ dropped
  let ds := Nat.toDigits 10 q
  (ds.rdropWhile (· == '0'), (ds.length : Int) + dropped - scale - 1)

/-- At least two digits for the exponent. -/
def exponentDigits (x : ℕ) : List Char :=
  if x < 10 then '0' :: Nat.toDigits 10 x else Nat.toDigits 10 x

/-- `%#.{precision}g`, the zeros at the end dropped but one after the point. -/
def print (precision : ℕ) (d : Decimal) : List Char :=
  if d.mantissa = 0 then "0.0".toList else
  let (ds, x) := significant precision d.mantissa.natAbs d.scale
  let sign := if d.mantissa < 0 then ['-'] else []
  let fraction := fun cs : List Char => if cs = [] then ['0'] else cs
  if x < -4 ∨ precision ≤ x then
    sign ++ ds.take 1 ++ '.' :: fraction (ds.drop 1) ++
      'e' :: (if x < 0 then '-' else '+') :: exponentDigits x.natAbs
  else if x < 0 then
    sign ++ '0' :: '.' :: List.replicate (x.natAbs - 1) '0' ++ ds
  else
    sign ++ (ds.take (x.toNat + 1)).rightpad (x.toNat + 1) '0' ++
      '.' :: fraction (ds.drop (x.toNat + 1))

/-- An optional sign. -/
def signOf : List Char → Bool × List Char
  | '-' :: cs => (true, cs)
  | '+' :: cs => (false, cs)
  | cs => (false, cs)

/-- The exponent of a number: an `e` that no digit follows is not part of it. -/
def scanExponent : List Char → Int × List Char
  | c :: cs =>
    if c = 'e' ∨ c = 'E' then
      let (neg, cs') := signOf cs
      let ds := digitsOf cs'
      if ds = [] then (0, c :: cs)
      else ((if neg then -(Nat.ofDigitChars 10 ds 0 : Int) else Nat.ofDigitChars 10 ds 0),
        cs'.drop ds.length)
    else (0, c :: cs)
  | [] => (0, [])

/-- The longest number at the start of a text, as `strtod` finds it, and what
follows. -/
def scan (cs : List Char) : Option (Decimal × List Char) :=
  let (neg, cs) := signOf cs
  let whole := digitsOf cs
  let cs := cs.drop whole.length
  let (frac, cs) := match cs with
    | '.' :: cs' => (digitsOf cs', cs'.drop (digitsOf cs').length)
    | _ => ([], cs)
  if whole = [] ∧ frac = [] then none
  else
    let (e, cs) := scanExponent cs
    let m : Int := Nat.ofDigitChars 10 (whole ++ frac) 0
    some (ofExponent (if neg then -m else m) (e - frac.length), cs)

/-! ### Numerals with a point -/

/-- The sign and the digits of a numeral. -/
theorem signOf_intDigits (i : Int) (cs : List Char) :
    signOf (intDigits i ++ cs) = (decide (i < 0), Nat.toDigits 10 i.natAbs ++ cs) := by
  unfold intDigits
  by_cases h : i < 0
  · simp [h, signOf]
  · rw [if_neg h]
    obtain ⟨c, ds, hcs, hc⟩ := exists_toDigits_eq_cons i.natAbs
    rw [hcs, List.cons_append]
    unfold signOf
    split
    · rename_i heq; rw [(List.cons.inj heq).1] at hc; cases hc
    · rename_i heq; rw [(List.cons.inj heq).1] at hc; cases hc
    · simp [h]

/-- The digits of `m`, with the sign of `i`. -/
def signed (i : Int) (m : ℕ) : Int := if i < 0 then -m else m

@[simp] theorem natAbs_signed (i : Int) (m : ℕ) : (signed i m).natAbs = m := by
  unfold signed
  split
  · rw [Int.natAbs_neg, Int.natAbs_natCast]
  · rw [Int.natAbs_natCast]

theorem signed_mod_ten_ne {i : Int} {m : ℕ} (h : m % 10 ≠ 0) : signed i m % 10 ≠ 0 := by
  have habs := natAbs_signed i m
  omega

theorem scanExponent_of_head {cs : List Char} (h : ∀ c ∈ cs.head?, c ≠ 'e' ∧ c ≠ 'E') :
    scanExponent cs = (0, cs) := by
  rcases cs with _ | ⟨c, cs⟩
  · rfl
  · have hc := h c rfl
    rw [scanExponent, if_neg (by rintro (rfl | rfl) <;> simp_all)]

/-- A numeral, a point and digits are one number, up to what follows. -/
theorem scan_point (i : Int) {frac rest : List Char} (hfrac : ∀ c ∈ frac, c.isDigit = true)
    (hrest : ∀ c ∈ rest.head?, c.isDigit = false ∧ c ≠ 'e' ∧ c ≠ 'E') :
    scan (intDigits i ++ '.' :: (frac ++ rest)) =
      some (⟨signed i (Nat.ofDigitChars 10 frac i.natAbs), frac.length⟩, rest) := by
  have hwhole : digitsOf (Nat.toDigits 10 i.natAbs ++ '.' :: (frac ++ rest)) =
      Nat.toDigits 10 i.natAbs :=
    digitsOf_append (fun c hc => isDigit_of_mem_toDigits hc) (by simp)
  have hdigits : digitsOf (frac ++ rest) = frac :=
    digitsOf_append hfrac fun c hc => (hrest c hc).1
  have hvalue : Nat.ofDigitChars 10 (Nat.toDigits 10 i.natAbs ++ frac) 0 =
      Nat.ofDigitChars 10 frac i.natAbs := by
    rw [Nat.ofDigitChars_append, Nat.ofDigitChars_ten_toDigits]
  have hexponent : ∀ m : Int, ofExponent m (0 - (frac.length : Int)) = ⟨m, frac.length⟩ := by
    intro m
    unfold ofExponent
    by_cases h : frac = []
    · subst h; simp
    · have hpos := List.length_pos_iff.mpr h
      rw [if_neg (by omega)]
      simp
  unfold scan
  rw [signOf_intDigits]
  simp only [hwhole, List.drop_left, hdigits, Nat.toDigits_ne_nil, false_and, if_false,
    scanExponent_of_head fun c hc => (hrest c hc).2, hvalue, hexponent, signed, decide_eq_true_eq]

/-- A number in which the last digit of the fraction is not zero is in lowest
terms. -/
theorem norm_of_mod_ne {d : Decimal} (h : d.mantissa % 10 ≠ 0) : d.norm = d := by
  obtain ⟨m, scale⟩ := d
  rcases scale with _ | scale
  · rfl
  · exact if_neg h

theorem isIntegral_of_mod_ne {d : Decimal} (h : d.mantissa % 10 ≠ 0) (hs : d.scale ≠ 0) :
    d.isIntegral = false := by
  obtain ⟨scale, hscale⟩ := Nat.exists_eq_succ_of_ne_zero hs
  rw [isIntegral, beq_eq_false_iff_ne]
  intro hmod
  have hten : (10 : Int) ∣ 10 ^ d.scale := by
    rw [hscale, pow_succ]; exact Dvd.intro_left _ rfl
  exact h (Int.emod_eq_zero_of_dvd (hten.trans (Int.dvd_of_emod_eq_zero hmod)))

/-- A number whose last digit is not zero has no zeros at the end. -/
theorem rdropWhile_of_mod_ne {m : ℕ} (hm : m % 10 ≠ 0) :
    (Nat.toDigits 10 m).rdropWhile (· == '0') = Nat.toDigits 10 m := by
  have hdigit : ¬ ((m % 10).digitChar == '0') = true := by simpa using hm
  rw [Nat.toDigits_eq_if (by decide)]
  split
  · rename_i hlt
    rw [Nat.mod_eq_of_lt hlt] at hdigit
    exact List.rdropWhile_concat_neg (l := []) _ _ hdigit
  · exact List.rdropWhile_concat_neg _ _ _ hdigit

/-- All digits of a number whose last one is not zero are significant. -/
theorem significant_eq {precision m : ℕ} (scale : ℕ) (hm : m % 10 ≠ 0)
    (hlen : (Nat.toDigits 10 m).length ≤ precision) :
    significant precision m scale =
      (Nat.toDigits 10 m, ((Nat.toDigits 10 m).length : Int) - scale - 1) := by
  have hdropped : (Nat.toDigits 10 m).length - precision = 0 := Nat.sub_eq_zero_of_le hlen
  unfold significant
  simp [hdropped, rdropWhile_of_mod_ne hm]

/-- A number of at most `precision` digits, some before the point and the last
one not zero, is printed with all of them. -/
theorem print_point {precision : ℕ} (i : Int) {frac : List Char} (hi : i ≠ 0) (hne : frac ≠ [])
    (hfrac : ∀ c ∈ frac, c.isDigit = true) (hmod : Nat.ofDigitChars 10 frac i.natAbs % 10 ≠ 0)
    (hlen : (Nat.toDigits 10 i.natAbs).length + frac.length ≤ precision) :
    print precision ⟨signed i (Nat.ofDigitChars 10 frac i.natAbs), frac.length⟩ =
      intDigits i ++ '.' :: frac := by
  have habs : 0 < i.natAbs := Int.natAbs_pos.mpr hi
  have hdigits := toDigits_ofDigitChars habs hfrac
  have hlength : (Nat.toDigits 10 (Nat.ofDigitChars 10 frac i.natAbs)).length =
      (Nat.toDigits 10 i.natAbs).length + frac.length := by rw [hdigits, List.length_append]
  have hle := le_ofDigitChars frac i.natAbs
  have hsig := significant_eq frac.length hmod (hlength ▸ hlen)
  have hnatAbs : (signed i (Nat.ofDigitChars 10 frac i.natAbs)).natAbs =
      Nat.ofDigitChars 10 frac i.natAbs := by unfold signed; split <;> simp
  have hzero : signed i (Nat.ofDigitChars 10 frac i.natAbs) ≠ 0 := by omega
  have hneg : signed i (Nat.ofDigitChars 10 frac i.natAbs) < 0 ↔ i < 0 := by
    unfold signed; split <;> omega
  have hpos : 0 < (Nat.toDigits 10 i.natAbs).length := List.length_pos_iff.mpr Nat.toDigits_ne_nil
  have hfracpos : 0 < frac.length := List.length_pos_iff.mpr hne
  -- the power of ten of the first digit
  have hx : (((Nat.toDigits 10 i.natAbs).length + frac.length : ℕ) : Int) - frac.length - 1 =
      ((Nat.toDigits 10 i.natAbs).length - 1 : ℕ) := by omega
  have hwhole : (Nat.toDigits 10 i.natAbs).length - 1 + 1 = (Nat.toDigits 10 i.natAbs).length := by
    omega
  unfold print
  simp only [if_neg hzero, hnatAbs, hsig, hlength, hx, hneg]
  rw [if_neg (by omega), if_neg (by omega), Int.toNat_natCast, hwhole, hdigits, List.take_left,
    List.drop_left, if_neg hne, List.rightpad, Nat.sub_self, List.replicate_zero, List.append_nil]
  unfold intDigits
  split <;> rfl

/-- The same for a number below one whose first digit stands after the point. -/
theorem print_fraction {precision m : ℕ} (hm : m % 10 ≠ 0)
    (hlen : (Nat.toDigits 10 m).length ≤ precision) :
    print precision ⟨m, (Nat.toDigits 10 m).length⟩ = '0' :: '.' :: Nat.toDigits 10 m := by
  have hsig := significant_eq (Nat.toDigits 10 m).length hm hlen
  have hx : ((Nat.toDigits 10 m).length : Int) - (Nat.toDigits 10 m).length - 1 = -1 := by omega
  have hzero : (m : Int) ≠ 0 := by omega
  have hneg : ¬ (m : Int) < 0 := by omega
  unfold print
  simp only [if_neg hzero, if_neg hneg, Int.natAbs_natCast, hsig, hx]
  rw [if_neg (by omega), if_pos (by decide)]
  rfl

/-- A zero at the end of the fraction is not significant. -/
theorem significant_zero (precision scale : ℕ) {m : ℕ} (hm : 0 < m) :
    significant precision (10 * m) (scale + 1) = significant precision m scale := by
  have hzero : Nat.toDigits 10 (10 * m) = Nat.toDigits 10 m ++ ['0'] := by
    have h := Nat.toDigits_append_toDigits (b := 10) (n := m) (d := 0) (by decide) hm (by decide)
    rw [← Nat.add_zero (10 * m), ← h]
    rfl
  have hlen : (Nat.toDigits 10 (10 * m)).length = (Nat.toDigits 10 m).length + 1 := by
    rw [hzero, List.length_append, List.length_singleton]
  unfold significant
  rw [hlen]
  by_cases h : (Nat.toDigits 10 m).length < precision
  · have hdrop : (Nat.toDigits 10 m).length + 1 - precision = 0 := by omega
    have hdrop' : (Nat.toDigits 10 m).length - precision = 0 := by omega
    simp only [hdrop, hdrop', if_true]
    rw [hlen, hzero, List.rdropWhile_concat_pos _ _ _ (by decide)]
    simp only [Prod.mk.injEq, true_and]
    omega
  · -- one more digit is dropped
    have hq : (if (Nat.toDigits 10 m).length + 1 - precision = 0 then 10 * m
        else (10 * m + 5 * 10 ^ ((Nat.toDigits 10 m).length + 1 - precision - 1)) /
          10 ^ ((Nat.toDigits 10 m).length + 1 - precision)) =
        if (Nat.toDigits 10 m).length - precision = 0 then m
        else (m + 5 * 10 ^ ((Nat.toDigits 10 m).length - precision - 1)) /
          10 ^ ((Nat.toDigits 10 m).length - precision) := by
      rw [if_neg (by omega)]
      rcases hd : (Nat.toDigits 10 m).length - precision with _ | k
      · have hone : (Nat.toDigits 10 m).length + 1 - precision = 1 := by omega
        rw [hone, if_pos rfl]
        omega
      · have hsucc : (Nat.toDigits 10 m).length + 1 - precision = k + 2 := by omega
        rw [hsucc, if_neg (by omega)]
        have hnum : 10 * m + 5 * 10 ^ (k + 2 - 1) = 10 * (m + 5 * 10 ^ (k + 1 - 1)) := by
          rw [Nat.add_sub_cancel, show k + 2 - 1 = k + 1 from rfl, pow_succ]
          ring
        rw [hnum, pow_succ' 10 (k + 1), Nat.mul_div_mul_left _ _ (by decide)]
    simp only [hq, Prod.mk.injEq, true_and]
    omega

theorem print_zero (precision scale : ℕ) {m : Int} (hm : m ≠ 0) :
    print precision ⟨10 * m, scale + 1⟩ = print precision ⟨m, scale⟩ := by
  have hten : 10 * m ≠ 0 := by omega
  have hneg : 10 * m < 0 ↔ m < 0 := by omega
  have habs : (10 * m).natAbs = 10 * m.natAbs := by omega
  unfold print
  simp only [if_neg hm, if_neg hten, habs, hneg, significant_zero precision scale (Int.natAbs_pos.mpr hm)]

/-- A number and its lowest terms are printed alike. -/
theorem print_norm (precision : ℕ) : ∀ {m : Int} (scale : ℕ), m ≠ 0 →
    print precision (norm ⟨m, scale⟩) = print precision ⟨m, scale⟩
  | _, 0, _ => rfl
  | m, scale + 1, hm => by
    by_cases h : m % 10 = 0
    · obtain ⟨k, rfl⟩ : ∃ k, m = 10 * k := ⟨m / 10, by omega⟩
      have hk : k ≠ 0 := by omega
      have hreduce : norm ⟨10 * k, scale + 1⟩ = norm ⟨k, scale⟩ := by
        simp [norm, reduce]
      rw [hreduce, print_norm precision scale hk, print_zero precision scale hk]
    · rw [norm_of_mod_ne h]

theorem isIntegral_norm : ∀ (m : Int) (scale : ℕ),
    (norm ⟨m, scale⟩).isIntegral = isIntegral ⟨m, scale⟩
  | _, 0 => rfl
  | m, scale + 1 => by
    by_cases h : m % 10 = 0
    · obtain ⟨k, rfl⟩ : ∃ k, m = 10 * k := ⟨m / 10, by omega⟩
      have hreduce : norm ⟨10 * k, scale + 1⟩ = norm ⟨k, scale⟩ := by simp [norm, reduce]
      rw [hreduce, isIntegral_norm]
      simp only [isIntegral, pow_succ', Int.mul_emod_mul_of_pos _ _ (show (0 : Int) < 10 by decide)]
      rw [Bool.eq_iff_iff, beq_iff_eq, beq_iff_eq]
      omega
    · rw [norm_of_mod_ne h]

/-! ### The characters of a printed number -/

theorem isDigit_of_mem_significant {precision m scale : ℕ} {c : Char}
    (h : c ∈ (significant precision m scale).1) : c.isDigit = true := by
  unfold significant at h
  exact isDigit_of_mem_toDigits ((List.rdropWhile_prefix _ _).subset h)

/-- A character of a printed number. -/
def PrintChar (c : Char) : Prop := c.isDigit = true ∨ c ∈ ['-', '+', '.', 'e']

instance (c : Char) : Decidable (PrintChar c) := inferInstanceAs (Decidable (_ ∨ _))

theorem isDigit_of_mem_exponentDigits {x : ℕ} {c : Char} (h : c ∈ exponentDigits x) :
    c.isDigit = true := by
  unfold exponentDigits at h
  split at h
  · rcases List.mem_cons.mp h with rfl | h
    · rfl
    · exact isDigit_of_mem_toDigits h
  · exact isDigit_of_mem_toDigits h

/-- A number is printed with digits, signs, a point and an exponent. -/
theorem printChar_print (precision : ℕ) (d : Decimal) : ∀ c ∈ d.print precision, PrintChar c := by
  have hds : ∀ c ∈ (significant precision d.mantissa.natAbs d.scale).1, PrintChar c :=
    fun c hc => .inl (isDigit_of_mem_significant hc)
  have hconst : ∀ c ∈ ['.', 'e', '+', '-', '0'], PrintChar c :=
    List.all_iff_forall_prop.mp (by decide)
  simp only [List.mem_cons, List.not_mem_nil, or_false, forall_eq_or_imp, forall_eq] at hconst
  obtain ⟨hpoint, he, hplus, hminus, hzero⟩ := hconst
  have hfraction : ∀ cs : List Char, (∀ c ∈ cs, PrintChar c) →
      ∀ c ∈ (if cs = [] then ['0'] else cs), PrintChar c := by
    intro cs hcs
    split
    · exact List.forall_mem_singleton.mpr hzero
    · exact hcs
  have hsign : ∀ c ∈ (if d.mantissa < 0 then ['-'] else []), PrintChar c := by
    split
    · exact List.forall_mem_singleton.mpr hminus
    · exact List.forall_mem_nil _
  unfold print
  split
  · exact List.all_iff_forall_prop.mp (by decide)
  · generalize significant precision d.mantissa.natAbs d.scale = sig at hds
    obtain ⟨ds, x⟩ := sig
    have htake : ∀ n, ∀ c ∈ ds.take n, PrintChar c := fun n c hc => hds c (List.mem_of_mem_take hc)
    have hdrop : ∀ n, ∀ c ∈ ds.drop n, PrintChar c := fun n c hc => hds c (List.mem_of_mem_drop hc)
    simp only
    split
    · simp only [List.forall_mem_append, List.forall_mem_cons]
      refine ⟨⟨⟨hsign, htake 1⟩, hpoint, hfraction _ (hdrop 1)⟩, he, ?_,
        fun c hc => .inl (isDigit_of_mem_exponentDigits hc)⟩
      split <;> assumption
    · split
      · simp only [List.forall_mem_append, List.forall_mem_cons]
        refine ⟨⟨hsign, hzero, hpoint, fun c hc => ?_⟩, hds⟩
        rw [List.eq_of_mem_replicate hc]
        exact hzero
      · simp only [List.rightpad, List.forall_mem_append, List.forall_mem_cons]
        refine ⟨⟨hsign, htake _, fun c hc => ?_⟩, hpoint, hfraction _ (hdrop _)⟩
        rw [List.eq_of_mem_replicate hc]
        exact hzero

/-! ### Where a printed number has its point -/

/-- The digits of a number without the zeros at the end are those of a number
that has none. -/
theorem rdropWhile_toDigits {q : ℕ} (hq : 0 < q) : ∃ r ≤ q, r % 10 ≠ 0 ∧
    (Nat.toDigits 10 q).rdropWhile (· == '0') = Nat.toDigits 10 r := by
  induction q using Nat.strongRecOn with
  | ind q ih =>
    by_cases hmod : q % 10 = 0
    · obtain ⟨r, hle, hr, hdigits⟩ := ih (q / 10) (by omega) (by omega)
      refine ⟨r, by omega, hr, ?_⟩
      rw [Nat.toDigits_eq_if (by decide), if_neg (by omega), hmod,
        List.rdropWhile_concat_pos _ _ _ (by decide), hdigits]
    · exact ⟨q, Nat.le_refl q, hmod, rdropWhile_of_mod_ne hmod⟩

/-- A number without its last digits, rounded. -/
theorem rounded_bounds {precision m dropped : ℕ} (hp : 0 < precision)
    (hlength : (Nat.toDigits 10 m).length = precision + dropped) (hdropped : 0 < dropped) :
    0 < (m + 5 * 10 ^ (dropped - 1)) / 10 ^ dropped ∧
      (m + 5 * 10 ^ (dropped - 1)) / 10 ^ dropped ≤ 10 ^ precision := by
  obtain ⟨k, rfl⟩ := Nat.exists_eq_succ_of_ne_zero hdropped.ne'
  have hlt : m < 10 ^ (precision + (k + 1)) :=
    (Nat.length_toDigits_le_iff (by decide) (by omega)).mp hlength.le
  have hle : 10 ^ (k + 1) ≤ m := by
    by_contra hnot
    have hshort := (Nat.length_toDigits_le_iff (b := 10) (by decide) (by omega)).mpr
      (Nat.lt_of_not_le hnot)
    omega
  have hpos : 0 < 10 ^ (k + 1) := Nat.pow_pos (by decide)
  have hround : 5 * 10 ^ k < 10 ^ (k + 1) := by
    rw [pow_succ]
    have hpow : 0 < 10 ^ k := Nat.pow_pos (by decide)
    omega
  constructor
  · exact Nat.div_pos (by omega) hpos
  · rw [pow_add] at hlt
    apply Nat.le_of_lt_succ
    rw [Nat.div_lt_iff_lt_mul hpos, Nat.succ_mul (10 ^ precision)]
    show m + 5 * 10 ^ k < _
    omega

/-- The significant digits are at most as many as are asked for, and the last
one is not zero. -/
theorem exists_significant {precision m : ℕ} (scale : ℕ) (hm : 0 < m) (hp : 0 < precision) :
    ∃ r, r % 10 ≠ 0 ∧ (significant precision m scale).1 = Nat.toDigits 10 r ∧
      (Nat.toDigits 10 r).length ≤ precision := by
  set dropped := (Nat.toDigits 10 m).length - precision with hdropped
  set q := if dropped = 0 then m else (m + 5 * 10 ^ (dropped - 1)) / 10 ^ dropped with hq
  have hbounds : 0 < q ∧ q ≤ 10 ^ precision := by
    by_cases hzero : dropped = 0
    · rw [hq, if_pos hzero]
      have hlt : m < 10 ^ precision := (Nat.length_toDigits_le_iff (by decide) hp).mp (by omega)
      exact ⟨hm, Nat.le_of_lt hlt⟩
    · rw [hq, if_neg hzero]
      exact rounded_bounds hp (by omega) (by omega)
  obtain ⟨r, hle, hr, hdigits⟩ := rdropWhile_toDigits hbounds.1
  refine ⟨r, hr, hdigits, (Nat.length_toDigits_le_iff (by decide) hp).mpr ?_⟩
  -- A power of ten has more digits than its exponent, but the last one is zero.
  apply Nat.lt_of_le_of_ne (hle.trans hbounds.2)
  rintro rfl
  obtain ⟨k, rfl⟩ := Nat.exists_eq_succ_of_ne_zero hp.ne'
  rw [pow_succ] at hr
  omega

theorem ofDigitChars_append_mod {cs ds : List Char} (hne : ds ≠ []) :
    Nat.ofDigitChars 10 (cs ++ ds) 0 % 10 = Nat.ofDigitChars 10 ds 0 % 10 := by
  obtain ⟨k, hk⟩ := Nat.exists_eq_succ_of_ne_zero (mt List.length_eq_zero_iff.mp hne)
  rw [Nat.ofDigitChars_append, Nat.ofDigitChars_eq_ofDigitChars_zero, hk, pow_succ]
  have hdvd : 10 ^ k * 10 * Nat.ofDigitChars 10 cs 0 = 10 * (10 ^ k * Nat.ofDigitChars 10 cs 0) := by
    ring
  omega

/-- What stands after the point of a printed number is zero, or its last digit
is not; and unless there is only one digit before the point there are as many as
are asked for, at most. -/
structure Printed (precision : ℕ) (whole frac : List Char) : Prop where
  whole_ne : whole ≠ []
  whole_digits : ∀ c ∈ whole, c.isDigit = true
  frac_ne : frac ≠ []
  frac_digits : ∀ c ∈ frac, c.isDigit = true
  last : frac = ['0'] ∨ Nat.ofDigitChars 10 frac 0 % 10 ≠ 0 ∧
    (whole.length ≤ 1 ∨ whole.length + frac.length ≤ precision)

/-- The zeros that fill a numeral up are digits. -/
theorem isDigit_of_mem_zeros {n : ℕ} {c : Char} (h : c ∈ List.replicate n '0') : c.isDigit = true := by
  rw [List.eq_of_mem_replicate h]
  rfl

/-- What is left of the digits behind the point. -/
theorem printed_drop {precision r : ℕ} (hr : r % 10 ≠ 0) (hlen : (Nat.toDigits 10 r).length ≤ precision)
    (n : ℕ) {whole : List Char} (hne : whole ≠ []) (hdigits : ∀ c ∈ whole, c.isDigit = true)
    (hlength : whole.length ≤ 1 ∨ whole.length ≤ n) :
    Printed precision whole
      (if (Nat.toDigits 10 r).drop n = [] then ['0'] else (Nat.toDigits 10 r).drop n) := by
  by_cases hdrop : (Nat.toDigits 10 r).drop n = []
  · rw [if_pos hdrop]
    exact ⟨hne, hdigits, by simp, fun _ hc => isDigit_of_mem_zeros (n := 1) hc, .inl rfl⟩
  · rw [if_neg hdrop]
    refine ⟨hne, hdigits, hdrop, fun c hc => isDigit_of_mem_toDigits (List.mem_of_mem_drop hc),
      .inr ⟨?_, hlength.imp_right fun hle => ?_⟩⟩
    · rw [← ofDigitChars_append_mod hdrop, List.take_append_drop, Nat.ofDigitChars_ten_toDigits]
      exact hr
    · have hpos : n < (Nat.toDigits 10 r).length := by
        by_contra hnot
        exact hdrop (List.drop_eq_nil_of_le (Nat.le_of_not_lt hnot))
      rw [List.length_drop]
      omega

/-- The digits behind the zeros of a number below one. -/
theorem printed_zeros {r : ℕ} (precision n : ℕ) (hr : r % 10 ≠ 0) :
    Printed precision ['0'] (List.replicate n '0' ++ Nat.toDigits 10 r) where
  whole_ne := by simp
  whole_digits _ hc := isDigit_of_mem_zeros (n := 1) hc
  frac_ne := by simp [Nat.toDigits_ne_nil]
  frac_digits c hc := by
    rcases List.mem_append.mp hc with hc | hc
    · exact isDigit_of_mem_zeros hc
    · exact isDigit_of_mem_toDigits hc
  last := by
    apply Or.inr
    constructor
    · rw [ofDigitChars_append_mod Nat.toDigits_ne_nil, Nat.ofDigitChars_ten_toDigits]
      exact hr
    · exact .inl (by simp)

/-- The digits before the point, with the zeros that fill them up. -/
theorem length_filled (ds : List Char) (n : ℕ) :
    ((ds.take (n + 1)).rightpad (n + 1) '0').length = n + 1 := by
  rw [List.rightpad, List.length_append, List.length_replicate, List.length_take]
  omega

theorem point_notMem_exponent (sign : Char) (hsign : sign ≠ '.') (x : ℕ) :
    '.' ∉ 'e' :: sign :: exponentDigits x := by
  intro hmem
  rcases List.mem_cons.mp hmem with h | h
  · cases h
  rcases List.mem_cons.mp h with h | h
  · exact hsign h.symm
  · cases isDigit_of_mem_exponentDigits h

/-- A number is printed with a point. -/
theorem exists_print {precision : ℕ} (hp : 0 < precision) (d : Decimal) :
    ∃ (sign whole frac rest : List Char), d.print precision = sign ++ whole ++ '.' :: (frac ++ rest) ∧
      (sign = [] ∨ sign = ['-']) ∧ (∀ c ∈ rest.head?, c.isDigit = false) ∧ '.' ∉ rest ∧
      Printed precision whole frac := by
  by_cases hzero : d.mantissa = 0
  · have hzeros : ∀ c ∈ ['0'], c.isDigit = true := fun _ hc => isDigit_of_mem_zeros (n := 1) hc
    refine ⟨[], ['0'], ['0'], [], ?_, .inl rfl, by simp, by simp, by simp, hzeros, by simp,
      hzeros, .inl rfl⟩
    rw [print, if_pos hzero]
    rfl
  obtain ⟨r, hr, hdigits, hlen⟩ := exists_significant d.scale (Int.natAbs_pos.mpr hzero) hp
  rcases hsig : significant precision d.mantissa.natAbs d.scale with ⟨ds, x⟩
  obtain rfl : ds = Nat.toDigits 10 r := by rw [← hdigits, hsig]
  have hds : ∀ c ∈ Nat.toDigits 10 r, c.isDigit = true := fun c hc => isDigit_of_mem_toDigits hc
  have hsign : (if d.mantissa < 0 then ['-'] else []) = ([] : List Char) ∨
      (if d.mantissa < 0 then ['-'] else []) = ['-'] := by
    split
    · exact .inr rfl
    · exact .inl rfl
  unfold print
  simp only [if_neg hzero, hsig]
  split
  · -- with an exponent
    have hfirst : ((Nat.toDigits 10 r).take 1).length ≤ 1 := by
      rw [List.length_take]
      omega
    have hprinted := printed_drop hr hlen 1 (by simp [Nat.toDigits_ne_nil])
      (fun c hc => hds c (List.mem_of_mem_take hc)) (.inl hfirst)
    have hplus : (if x < 0 then '-' else '+') ≠ '.' := by
      split <;> decide
    exact ⟨_, _, _, 'e' :: _ :: exponentDigits x.natAbs, by simp, hsign, by simp,
      point_notMem_exponent _ hplus _, hprinted⟩
  · split
    · -- below one
      exact ⟨_, ['0'], _, [], by simp, hsign, by simp, by simp,
        printed_zeros precision (x.natAbs - 1) hr⟩
    · have hlength := length_filled (Nat.toDigits 10 r) x.toNat
      have hfilled : ∀ c ∈ ((Nat.toDigits 10 r).take (x.toNat + 1)).rightpad (x.toNat + 1) '0',
          c.isDigit = true := by
        intro c hc
        rcases List.mem_append.mp hc with hc | hc
        · exact hds c (List.mem_of_mem_take hc)
        · exact isDigit_of_mem_zeros hc
      have hprinted := printed_drop hr hlen (x.toNat + 1) (List.ne_nil_of_length_pos (by omega))
        hfilled (.inr hlength.le)
      exact ⟨_, _, _, [], by simp, hsign, by simp, by simp, hprinted⟩

end Decimal

end Lib
end Horo
