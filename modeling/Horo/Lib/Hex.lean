/-
# Hexadecimal numerals

`strtol` in base 16, as the C library and the C++ streams read it: a sign, a
prefix, the digits there are, and nothing said about what follows.

Key definitions: `Hex.digitOf`, `Hex.read`.
Key theorems: `Hex.digits_toDigits`, `Hex.read_of_digits`.
-/
import Horo.Lib.Numeral

namespace Horo
namespace Lib
namespace Hex

/-- The value of a digit, in either letter case. -/
def digitOf (c : Char) : Option ℕ :=
  if '0' ≤ c ∧ c ≤ '9' then some (c.toNat - 48)
  else if 'A' ≤ c ∧ c ≤ 'F' then some (c.toNat - 55)
  else if 'a' ≤ c ∧ c ≤ 'f' then some (c.toNat - 87)
  else none

/-- The digits at the start of a text, appended to a number. -/
def digits (n : ℕ) : List Char → ℕ
  | [] => n
  | c :: cs =>
    match digitOf c with
    | some d => digits (16 * n + d) cs
    | none => n

/-- The text after a `0x`. -/
def skipPrefix : List Char → List Char
  | '0' :: c :: cs => if c = 'x' ∨ c = 'X' then cs else '0' :: c :: cs
  | cs => cs

/-- The number at the start of a text; `0` where there is none. -/
def read (cs : List Char) : ℤ :=
  let (neg, cs) := Decimal.signOf cs
  let n : ℤ := digits 0 (skipPrefix cs)
  if neg then -n else n

theorem digitOf_digitChar : ∀ d < 16, digitOf d.digitChar = some d := by decide

theorem digitOf_toUpper_digitChar : ∀ d < 16, digitOf d.digitChar.toUpper = some d := by decide

theorem digits_cons {c : Char} {d : ℕ} (h : digitOf c = some d) (n : ℕ) (cs : List Char) :
    digits n (c :: cs) = digits (16 * n + d) cs := by
  rw [digits, h]

/-- All of a text consists of digits. -/
def Digits (cs : List Char) : Prop := ∀ c ∈ cs, (digitOf c).isSome = true

theorem digits_append : ∀ {cs : List Char} (n : ℕ) (cs' : List Char), Digits cs →
    digits n (cs ++ cs') = digits (digits n cs) cs'
  | [], _, _, _ => rfl
  | c :: cs, n, cs', h => by
    obtain ⟨hc, hcs⟩ := List.forall_mem_cons.mp h
    obtain ⟨d, hd⟩ := Option.isSome_iff_exists.mp hc
    rw [List.cons_append, digits_cons hd, digits_cons hd]
    exact digits_append _ cs' hcs

theorem exists_digit_of_mem_toDigits {n : ℕ} {c : Char} (h : c ∈ Nat.toDigits 16 n) :
    ∃ d < 16, c = d.digitChar := by
  induction n using Nat.strongRecOn with
  | ind n ih =>
    rcases Nat.lt_or_ge n 16 with hn | hn
    · rw [Nat.toDigits_of_lt_base hn, List.mem_singleton] at h
      exact ⟨n, hn, h⟩
    · rw [Nat.toDigits_of_base_le (by decide) hn, List.mem_append, List.mem_singleton] at h
      rcases h with h | h
      · exact ih (n / 16) (by omega) h
      · exact ⟨n % 16, Nat.mod_lt n (by decide), h⟩

section

variable {f : Char → Char} (hf : ∀ d < 16, digitOf (f d.digitChar) = some d)

include hf

theorem digits_map_toDigits (n : ℕ) : Digits ((Nat.toDigits 16 n).map f) := by
  intro c hc
  obtain ⟨x, hx, rfl⟩ := List.mem_map.mp hc
  obtain ⟨d, hd, rfl⟩ := exists_digit_of_mem_toDigits hx
  rw [hf d hd]
  rfl

/-- The digits of a number are read back, in whatever form they are written. -/
theorem digits_toDigits (n : ℕ) : digits 0 ((Nat.toDigits 16 n).map f) = n := by
  induction n using Nat.strongRecOn with
  | ind n ih =>
    rcases Nat.lt_or_ge n 16 with hn | hn
    · rw [Nat.toDigits_of_lt_base hn, List.map_singleton, digits_cons (hf n hn)]
      exact Nat.zero_add n
    · have hdiv := ih (n / 16) (by omega)
      rw [Nat.toDigits_of_base_le (by decide) hn, List.map_append,
        digits_append _ _ (digits_map_toDigits hf _), hdiv, List.map_singleton,
        digits_cons (hf _ (Nat.mod_lt n (by decide)))]
      exact Nat.div_add_mod n 16

end

theorem skipPrefix_of_digits {cs : List Char} (h : Digits cs) : skipPrefix cs = cs := by
  unfold skipPrefix
  split
  · rename_i c cs
    have hc := h c (List.mem_cons_of_mem _ List.mem_cons_self)
    rw [if_neg]
    rintro (rfl | rfl)
    · cases hc
    · cases hc
  · rfl

theorem signOf_of_digits {cs : List Char} (h : Digits cs) : Decimal.signOf cs = (false, cs) := by
  unfold Decimal.signOf
  split
  · cases h '-' List.mem_cons_self
  · cases h '+' List.mem_cons_self
  · rfl

theorem read_of_digits {cs : List Char} (h : Digits cs) : read cs = digits 0 cs := by
  rw [read, signOf_of_digits h]
  change (digits 0 (skipPrefix cs) : ℤ) = digits 0 cs
  rw [skipPrefix_of_digits h]

theorem digitOf_lt {c : Char} {d : ℕ} (h : digitOf c = some d) : d < 16 := by
  unfold digitOf at h
  split at h
  · rename_i hc
    obtain rfl := Option.some.inj h
    have hnine : c.toNat ≤ 57 := UInt32.le_iff_toNat_le.mp hc.2
    omega
  · split at h
    · rename_i hc
      obtain rfl := Option.some.inj h
      have hf : c.toNat ≤ 70 := UInt32.le_iff_toNat_le.mp hc.2
      omega
    · split at h
      · rename_i hc
        obtain rfl := Option.some.inj h
        have hf : c.toNat ≤ 102 := UInt32.le_iff_toNat_le.mp hc.2
        omega
      · cases h

theorem digits_singleton (n : ℕ) (c : Char) :
    digits n [c] = (digitOf c).elim n fun d => 16 * n + d := by
  rw [digits]
  cases digitOf c with
  | none => rfl
  | some d => rfl

/-- Two characters, the first of them a digit. -/
theorem read_pair {c : Char} {d : ℕ} (h : digitOf c = some d) (x : Char) :
    read [c, x] = ((digitOf x).elim d fun e => 16 * d + e : ℕ) := by
  have hsign : Decimal.signOf [c, x] = (false, [c, x]) := by
    unfold Decimal.signOf
    split
    · rename_i heq
      rw [(List.cons.inj heq).1] at h
      cases h
    · rename_i heq
      rw [(List.cons.inj heq).1] at h
      cases h
    · rfl
  have hdigits : digits 0 (skipPrefix [c, x]) = (digitOf x).elim d fun e => 16 * d + e := by
    by_cases hprefix : c = '0' ∧ (x = 'x' ∨ x = 'X')
    · -- a prefix that nothing follows is the digit `0`
      obtain ⟨rfl, rfl | rfl⟩ := hprefix
      · obtain rfl := Option.some.inj h
        rfl
      · obtain rfl := Option.some.inj h
        rfl
    · have hskip : skipPrefix [c, x] = [c, x] := by
        unfold skipPrefix
        split
        · rename_i heq
          obtain ⟨hc, hx⟩ := List.cons.inj heq
          rw [← (List.cons.inj hx).1, if_neg fun hx => hprefix ⟨hc, hx⟩, hc, (List.cons.inj hx).2]
        · rfl
      rw [hskip, digits_cons h, Nat.mul_zero, Nat.zero_add, digits_singleton]
  rw [read, hsign]
  change (digits 0 (skipPrefix [c, x]) : ℤ) = _
  rw [hdigits]

end Hex
end Lib
end Horo
