/-
# The device token, in hexadecimal digits and back

`horo_hexString` and `horo_dataFromHex` of `Categories`. The characters of a
string are its UTF-16 units, and `horo_dataFromHex` looks at the low byte of a
unit only: a unit such as that of `а` (Cyrillic, `0x430`) is read as a digit.
Its `length` is an `int`.

Key definitions: `horo_dataFromHex`, `spaced`, `layout`, `Legible`.
Key theorems: `readBack_iff`, `dataFromHex_spaced_iff`, `dataFromHex_ascii`,
`dataFromHex_hexString_iff`.
-/
import Horo.Text
import Mathlib.Data.List.Forall2

namespace Horo
namespace DeviceToken

open Lib

/-! ### The source -/

/-- `%02.2hhX`. -/
def hexByte (byte : UInt8) : List Char :=
  ((Nat.toDigits 16 byte.toNat).leftpad 2 '0').map Char.toUpper

/-- `horo_hexString`. -/
def horo_hexString (data : List UInt8) : List Char := (data.flatMap hexByte).map Char.toLower

/-- `lowercaseString`: the UTF-16 units that a character becomes between the
characters before and after it. Only a sigma looks at these. -/
structure Lowercase where
  units : List Char → Char → List Char → List UInt16
  units_ascii : ∀ c : Char, c.toNat < 128 → units [] c [] = [c.toLower.toNat.toUInt16]
  units_sigma : ∀ before after, units before 'Σ' after ∈ [[0x3C3], [0x3C2]]
  units_eq : ∀ (before : List Char) (c : Char) (after : List Char), c ≠ 'Σ' →
    units before c after = units [] c []

/-- A character of the string, as a `char`. -/
def toChar (unit : UInt16) : Int8 := unit.toUInt8.toInt8

/-- A `char`, as an element of a C string. -/
def ofChar (c : Int8) : Char := Char.ofNat c.toUInt8.toNat

/-- `char` constants. -/
def code (c : Char) : Int8 := Int8.ofNat c.toNat

/-- The characters that the loop goes past. -/
def skipped (c : Int8) : Bool :=
  c < code '0' || (c > code '9' && c < code 'a') || c > code 'f'

/-- The `whole_byte` of two `byte_chars`. -/
def wholeByte (c next : Int8) : UInt8 :=
  UInt8.ofInt (strtol16 (([c, next].map ofChar).takeWhile (· ≠ '\x00')))

/-- The loop, while there is more than one character left. -/
def getData : List UInt16 → List UInt8
  | unit :: next :: string =>
    let c := toChar unit
    if skipped c then getData (next :: string)
    else wholeByte c (toChar next) :: getData string
  | _ => []

section

variable (L : Lowercase)

/-- The units of a text, after the characters `before`. -/
def lowercaseFrom (before : List Char) : List Char → List UInt16
  | [] => []
  | c :: cs => L.units before c cs ++ lowercaseFrom (before ++ [c]) cs

/-- What `int length` leaves of a string. At exactly `2 ^ 31` units `length - 1`
overflows, and the loop is taken to read nothing. -/
def readLength (length : ℕ) : ℕ := (Int32.ofNat length).toInt.toNat

def horo_dataFromHex (self : List Char) : List UInt8 :=
  let string := lowercaseFrom L [] self
  getData (string.take (readLength string.length))

end

/-! ### What the loop reads -/

theorem skipped_code : ∀ d < 16, skipped (code d.digitChar) = false := by decide

theorem ofChar_code : ∀ d < 16, ofChar (code d.digitChar) = d.digitChar := by decide

/-- What is not skipped is a digit. -/
theorem digitOf_of_not_skipped {c : Int8} (h : skipped c = false) :
    (Hex.digitOf (ofChar c)).isSome = true ∧ ofChar c ≠ '\x00' := by
  have hcodes : ∀ n < 256, skipped (Int8.ofNat n) = false →
      (Hex.digitOf (ofChar (Int8.ofNat n))).isSome = true ∧ ofChar (Int8.ofNat n) ≠ '\x00' := by
    decide +kernel
  have hc : Int8.ofNat c.toUInt8.toNat = c := by
    rw [← UInt8.toInt8_ofNat', UInt8.ofNat_toNat, Int8.toInt8_toUInt8]
  rw [← hc] at h ⊢
  exact hcodes _ c.toUInt8.toNat_lt h

/-- The byte of a digit and what follows it. -/
theorem wholeByte_eq {c : Int8} {d : ℕ} (h : skipped c = false)
    (hd : Hex.digitOf (ofChar c) = some d) (next : Int8) :
    wholeByte c next = UInt8.ofNat ((Hex.digitOf (ofChar next)).elim d fun e => 16 * d + e) := by
  obtain ⟨hdigit, hnul⟩ := digitOf_of_not_skipped h
  have hbytes : strtol16 (([c, next].map ofChar).takeWhile (· ≠ '\x00')) =
      ((Hex.digitOf (ofChar next)).elim d fun e => 16 * d + e : ℕ) := by
    rw [List.map_cons, List.map_singleton, List.takeWhile_cons_of_pos (by simpa using hnul)]
    by_cases hnext : ofChar next = '\x00'
    · -- the second of them ends the string
      rw [hnext, List.takeWhile_cons_of_neg (by simp), strtol16, dropWhile_isspace_of_digitOf hdigit,
        Hex.read_of_digits (List.forall_mem_singleton.mpr hdigit), Hex.digits_singleton, hd]
      simp [Hex.digitOf]
    · rw [List.takeWhile_cons_of_pos (by simpa using hnext), List.takeWhile_nil, strtol16,
        dropWhile_isspace_of_digitOf hdigit, Hex.read_pair hd]
  have hmod : ∀ n : ℕ, UInt8.ofInt n = UInt8.ofNat n := by
    intro n
    have hmod : ((n : ℤ) % 2 ^ 8).toNat = n % 2 ^ 8 := by omega
    rw [UInt8.ofInt, hmod, UInt8.ofNat_mod_size]
  rw [wholeByte, hbytes, hmod]

/-- A digit that is read for all bits set is `f`, one for none is `0`. -/
theorem wholeByte_extreme {c next : Int8} {d : ℕ} (h : skipped c = false)
    (hd : Hex.digitOf (ofChar c) = some d) :
    (wholeByte c next = 0xFF → d = 15) ∧ (wholeByte c next = 0 → d = 0) := by
  have hdlt := Hex.digitOf_lt hd
  rw [wholeByte_eq h hd, ← UInt8.toNat_inj, ← UInt8.toNat_inj]
  cases he : Hex.digitOf (ofChar next) with
  | none =>
    rw [Option.elim_none, UInt8.toNat_ofNat_of_lt' (by change d < 256; omega)]
    exact ⟨fun (h : d = 255) => by omega, fun (h : d = 0) => h⟩
  | some e =>
    have helt := Hex.digitOf_lt he
    rw [Option.elim_some, UInt8.toNat_ofNat_of_lt' (by change 16 * d + e < 256; omega)]
    exact ⟨fun (h : 16 * d + e = 255) => by omega, fun (h : 16 * d + e = 0) => by omega⟩

/-- A character that is skipped, wherever the string ends. -/
theorem getData_skipped {unit : UInt16} (h : skipped (toChar unit) = true) (string : List UInt16) :
    getData (unit :: string) = getData string := by
  rcases string with _ | ⟨next, string⟩
  · rfl
  · rw [getData, h]
    rfl

theorem getData_digit {unit : UInt16} (h : skipped (toChar unit) = false) (next : UInt16)
    (string : List UInt16) :
    getData (unit :: next :: string) = wholeByte (toChar unit) (toChar next) :: getData string := by
  rw [getData, h]
  rfl

/-- The unit of a digit. -/
def digitUnit (d : ℕ) : UInt16 := d.digitChar.toNat.toUInt16

theorem toChar_digitUnit : ∀ d < 16, toChar (digitUnit d) = code d.digitChar := by decide

theorem digit_lt (byte : UInt8) : byte.toNat / 16 < 16 ∧ byte.toNat % 16 < 16 := by
  have h := byte.toNat_lt
  omega

/-- **A byte is read from its two digits.** -/
theorem getData_byte (byte : UInt8) (string : List UInt16) :
    getData (digitUnit (byte.toNat / 16) :: digitUnit (byte.toNat % 16) :: string) =
      byte :: getData string := by
  obtain ⟨hhigh, hlow⟩ := digit_lt byte
  have hskipped : skipped (toChar (digitUnit (byte.toNat / 16))) = false := by
    rw [toChar_digitUnit _ hhigh]
    exact skipped_code _ hhigh
  have hdigit : ∀ d < 16, Hex.digitOf (ofChar (toChar (digitUnit d))) = some d := fun d hd => by
    rw [toChar_digitUnit d hd, ofChar_code d hd, Hex.digitOf_digitChar d hd]
  rw [getData_digit hskipped, wholeByte_eq hskipped (hdigit _ hhigh), hdigit _ hlow, Option.elim_some,
    Nat.div_add_mod, UInt8.ofNat_toNat]

/-! ### Digits and what stands between them -/

/-- A string in which the units of some characters are known and pairs of
others, for `n` bytes, are not. -/
inductive Layout : ℕ → List (Option UInt16) → Prop
  | nil : Layout 0 []
  | unit {n : ℕ} {l : List (Option UInt16)} (unit : UInt16) (h : Layout n l) : Layout n (some unit :: l)
  | byte {n : ℕ} {l : List (Option UInt16)} (h : Layout n l) : Layout (n + 1) (none :: none :: l)

/-- The string with the digits of the bytes. -/
def fill : List (Option UInt16) → List UInt8 → List UInt16
  | some unit :: l, data => unit :: fill l data
  | none :: none :: l, byte :: data =>
    digitUnit (byte.toNat / 16) :: digitUnit (byte.toNat % 16) :: fill l data
  | _, _ => []

/-- All digits are within the length, and no other character there, but for
the last one, is taken for a digit. -/
def Legible (length : ℕ) (l : List (Option UInt16)) : Prop :=
  (∀ unit, some unit ∈ (l.take length).dropLast → skipped (toChar unit) = true) ∧ none ∉ l.drop length

/-- `n` bytes are read back, whatever they are. -/
def ReadBack (n length : ℕ) (l : List (Option UInt16)) : Prop :=
  ∀ data : List UInt8, data.length = n → getData ((fill l data).take length) = data

theorem Layout.none_notMem_iff {n : ℕ} {l : List (Option UInt16)} (h : Layout n l) :
    none ∉ l ↔ n = 0 := by
  induction h with
  | nil => exact iff_of_true List.not_mem_nil rfl
  | unit unit _ ih => rw [List.mem_cons, or_iff_right (by simp), ih]
  | byte _ _ => exact iff_of_false (fun h => h List.mem_cons_self) (Nat.succ_ne_zero _)

theorem Layout.length_fill {n : ℕ} {l : List (Option UInt16)} (h : Layout n l) :
    ∀ data : List UInt8, data.length = n → (fill l data).length = l.length := by
  induction h with
  | nil => exact fun _ _ => rfl
  | unit unit _ ih => exact fun data hdata => congrArg (· + 1) (ih data hdata)
  | byte _ ih =>
    rintro (_ | ⟨byte, data⟩) hdata
    · cases hdata
    · exact congrArg (· + 2) (ih data (Nat.succ.inj hdata))

theorem legible_skipped {unit : UInt16} (h : skipped (toChar unit) = true) (length : ℕ)
    (l : List (Option UInt16)) : Legible (length + 1) (some unit :: l) ↔ Legible length l := by
  refine and_congr_left fun _ => ?_
  rw [List.take_succ_cons]
  rcases l.take length with _ | ⟨x, xs⟩
  · exact Iff.rfl
  · rw [List.dropLast_cons_of_ne_nil (List.cons_ne_nil x xs)]
    refine ⟨fun hall unit' hmem => hall unit' (List.mem_cons_of_mem _ hmem), fun hall unit' hmem => ?_⟩
    rcases List.mem_cons.mp hmem with heq | hmem
    · rw [Option.some.inj heq, h]
    · exact hall unit' hmem

theorem legible_byte (length : ℕ) (l : List (Option UInt16)) :
    Legible (length + 2) (none :: none :: l) ↔ Legible length l := by
  refine and_congr_left fun _ => ?_
  rw [List.take_succ_cons, List.take_succ_cons, List.dropLast_cons_of_ne_nil (List.cons_ne_nil _ _)]
  rcases l.take length with _ | ⟨x, xs⟩
  · simp
  · rw [List.dropLast_cons_of_ne_nil (List.cons_ne_nil x xs)]
    simp

/-- Nothing is read, which is right for no bytes. -/
theorem nil_eq_iff (n : ℕ) : (∀ data : List UInt8, data.length = n → [] = data) ↔ n = 0 := by
  constructor
  · intro h
    have hzeros := congrArg List.length (h (List.replicate n 0) List.length_replicate)
    rw [List.length_replicate] at hzeros
    exact hzeros.symm
  · rintro rfl data hdata
    exact (List.length_eq_zero_iff.mp hdata).symm

theorem readBack_skipped {unit : UInt16} (h : skipped (toChar unit) = true) (n length : ℕ)
    (l : List (Option UInt16)) : ReadBack n (length + 1) (some unit :: l) ↔ ReadBack n length l := by
  refine forall₂_congr fun data _ => ?_
  rw [fill, List.take_succ_cons, getData_skipped h]

theorem readBack_byte (n length : ℕ) (l : List (Option UInt16)) :
    ReadBack (n + 1) (length + 2) (none :: none :: l) ↔ ReadBack n length l := by
  constructor
  · intro hall data hdata
    have hbyte := hall (0 :: data) (congrArg (· + 1) hdata)
    rw [fill, List.take_succ_cons, List.take_succ_cons, getData_byte] at hbyte
    exact (List.cons.inj hbyte).2
  · rintro hall (_ | ⟨byte, data⟩) hdata
    · cases hdata
    · rw [fill, List.take_succ_cons, List.take_succ_cons, getData_byte, hall data (Nat.succ.inj hdata)]

/-- A byte of which not both digits are read. -/
theorem not_readBack_cut {n length : ℕ} (h : length < 2) (l : List (Option UInt16)) :
    ¬ ReadBack (n + 1) length (none :: none :: l) := by
  intro hall
  have hzeros := hall (List.replicate (n + 1) 0) List.length_replicate
  rcases length with _ | _ | length
  · cases hzeros
  · cases hzeros
  · omega

/-- The last character is not read. -/
theorem readBack_last {n length : ℕ} {l : List (Option UInt16)} (h : Layout n l) (unit : UInt16)
    (hnext : l.take length = []) : ReadBack n (length + 1) (some unit :: l) ↔ n = 0 := by
  rw [← nil_eq_iff n]
  refine forall₂_congr fun data hdata => ?_
  have hstring : (fill l data).take length = [] := by
    rw [← List.length_eq_zero_iff, List.length_take, h.length_fill data hdata, ← List.length_take,
      hnext, List.length_nil]
  rw [fill, List.take_succ_cons, hstring]
  rfl

/-- A character that is taken for a digit, with another one after it, spoils
the bytes whose first digit it is not. -/
theorem not_readBack_digit {n length : ℕ} {l : List (Option UInt16)} (h : Layout n l) {unit : UInt16}
    (hunit : skipped (toChar unit) = false) (hnext : l.take length ≠ []) :
    ¬ ReadBack n (length + 1) (some unit :: l) := by
  intro hall
  obtain ⟨d, hd⟩ := Option.isSome_iff_exists.mp (digitOf_of_not_skipped hunit).1
  -- the first byte that is read has this digit
  have hfirst : ∀ byte : UInt8, ∃ next, wholeByte (toChar unit) next = byte := by
    intro byte
    have hdata := hall (List.replicate n byte) List.length_replicate
    rw [fill, List.take_succ_cons] at hdata
    rcases hstring : (fill l (List.replicate n byte)).take length with _ | ⟨next, string⟩
    · have hlength := congrArg List.length hstring
      rw [List.length_take, h.length_fill _ List.length_replicate, ← List.length_take] at hlength
      exact absurd (List.length_eq_zero_iff.mp hlength) hnext
    · rw [hstring, getData_digit hunit] at hdata
      exact ⟨toChar next, List.eq_of_mem_replicate (hdata ▸ List.mem_cons_self)⟩
  obtain ⟨next, hones⟩ := hfirst 0xFF
  obtain ⟨next', hzeros⟩ := hfirst 0
  have hf := (wholeByte_extreme hunit hd).1 hones
  have hzero := (wholeByte_extreme hunit hd).2 hzeros
  omega

theorem legible_zero_iff (l : List (Option UInt16)) : Legible 0 l ↔ none ∉ l :=
  and_iff_right fun _ hmem => nomatch hmem

theorem legible_last {unit : UInt16} {length : ℕ} {l : List (Option UInt16)}
    (hnext : l.take length = []) : Legible (length + 1) (some unit :: l) ↔ none ∉ l := by
  have hdrop : l.drop length = l := by
    have happend := List.take_append_drop length l
    rwa [hnext, List.nil_append] at happend
  rw [Legible, List.take_succ_cons, hnext, List.drop_succ_cons, hdrop]
  exact and_iff_right fun unit' hmem => nomatch hmem

theorem not_legible_digit {unit : UInt16} {length : ℕ} {l : List (Option UInt16)}
    (hunit : skipped (toChar unit) = false) (hnext : l.take length ≠ []) :
    ¬ Legible (length + 1) (some unit :: l) := by
  rintro ⟨hall, -⟩
  rw [List.take_succ_cons, List.dropLast_cons_of_ne_nil hnext] at hall
  rw [hall unit List.mem_cons_self] at hunit
  cases hunit

theorem not_legible_cut {length : ℕ} (h : length < 2) (l : List (Option UInt16)) :
    ¬ Legible length (none :: none :: l) := by
  rintro ⟨-, hnone⟩
  rcases length with _ | _ | length
  · exact hnone List.mem_cons_self
  · exact hnone List.mem_cons_self
  · omega

/-- **Whatever the bytes, they are read back**, exactly when the string is
legible. -/
theorem readBack_iff {n : ℕ} {l : List (Option UInt16)} (h : Layout n l) : ∀ length : ℕ,
    ReadBack n length l ↔ Legible length l := by
  induction h with
  | nil =>
    intro length
    refine iff_of_true (fun data hdata => ?_) ⟨fun unit hunit => ?_, ?_⟩
    · rw [List.length_eq_zero_iff.mp hdata]
      cases length <;> rfl
    · rw [List.take_nil] at hunit
      cases hunit
    · rw [List.drop_nil]
      exact List.not_mem_nil
  | @unit n l unit h ih =>
    rintro (_ | length)
    · calc ReadBack n 0 (some unit :: l) ↔ n = 0 := nil_eq_iff n
        _ ↔ none ∉ some unit :: l := (Layout.unit unit h).none_notMem_iff.symm
        _ ↔ Legible 0 (some unit :: l) := (legible_zero_iff _).symm
    · cases hunit : skipped (toChar unit) with
      | true => rw [legible_skipped hunit, readBack_skipped hunit, ih length]
      | false =>
        by_cases hnext : l.take length = []
        · rw [legible_last hnext, readBack_last h unit hnext, h.none_notMem_iff]
        · exact iff_of_false (not_readBack_digit h hunit hnext) (not_legible_digit hunit hnext)
  | @byte n l h ih =>
    intro length
    rcases Nat.lt_or_ge length 2 with hlength | hlength
    · exact iff_of_false (not_readBack_cut hlength l) (not_legible_cut hlength l)
    · obtain ⟨length, rfl⟩ := Nat.exists_eq_add_of_le' hlength
      rw [legible_byte, readBack_byte, ih length]

/-! ### The text -/

/-- The digits of a byte, in either letter case. -/
def group (upper : Bool) (byte : UInt8) : List Char :=
  if upper then (horo_hexString [byte]).map Char.toUpper else horo_hexString [byte]

/-- The digits of the bytes, with a gap after each. -/
def spaced (upper : Bool) : List UInt8 → List (List Char) → List Char
  | byte :: data, gap :: gaps => group upper byte ++ (gap ++ spaced upper data gaps)
  | _, _ => []

section

variable (L : Lowercase)

/-- The units of a character; a sigma is taken for one inside a word. -/
def lower (c : Char) : List UInt16 := if c = 'Σ' then [0x3C3] else L.units [] c []

/-- The string of a text, whatever the bytes. -/
def layout (before : List Char) (gaps : List (List Char)) : List (Option UInt16) :=
  (before.flatMap (lower L)).map some ++
    gaps.flatMap fun gap => none :: none :: (gap.flatMap (lower L)).map some

theorem layout_units (units : List UInt16) {n : ℕ} {l : List (Option UInt16)} (h : Layout n l) :
    Layout n (units.map some ++ l) := by
  induction units with
  | nil => exact h
  | cons unit units ih => exact .unit unit ih

theorem layout_gaps : ∀ gaps : List (List Char), Layout gaps.length
    (gaps.flatMap fun gap => none :: none :: (gap.flatMap (lower L)).map some)
  | [] => .nil
  | gap :: gaps => by
    rw [List.flatMap_cons]
    exact .byte (layout_units _ (layout_gaps gaps))

theorem fill_units (units : List UInt16) (l : List (Option UInt16)) (data : List UInt8) :
    fill (units.map some ++ l) data = units ++ fill l data := by
  induction units with
  | nil => rfl
  | cons unit units ih => exact congrArg (unit :: ·) ih

theorem hexByte_eq (byte : UInt8) :
    hexByte byte = [(byte.toNat / 16).digitChar.toUpper, (byte.toNat % 16).digitChar.toUpper] := by
  unfold hexByte
  rcases Nat.lt_or_ge byte.toNat 16 with h | h
  · rw [Nat.toDigits_of_lt_base h, Nat.div_eq_of_lt h, Nat.mod_eq_of_lt h]
    rfl
  · rw [Nat.toDigits_of_base_le (by decide) h, Nat.toDigits_of_lt_base (digit_lt byte).1]
    rfl

/-- A digit in either letter case is lower-cased to the same unit. -/
theorem digit_cases : ∀ d < 16, (d.digitChar ≠ 'Σ' ∧ d.digitChar.toNat < 128 ∧
      d.digitChar.toLower = d.digitChar) ∧
    d.digitChar.toUpper ≠ 'Σ' ∧ d.digitChar.toUpper.toNat < 128 ∧
      d.digitChar.toUpper.toLower = d.digitChar := by
  decide

theorem lower_digit {d : ℕ} (hd : d < 16) {c : Char} (hc : c = d.digitChar ∨ c = d.digitChar.toUpper) :
    lower L c = [digitUnit d] := by
  obtain ⟨⟨hne, hascii, hlower⟩, hne', hascii', hlower'⟩ := digit_cases d hd
  rcases hc with rfl | rfl
  · rw [lower, if_neg hne, L.units_ascii _ hascii, hlower]
    rfl
  · rw [lower, if_neg hne', L.units_ascii _ hascii', hlower']
    rfl

/-- The text of a byte. -/
theorem horo_hexString_singleton (byte : UInt8) :
    horo_hexString [byte] = [(byte.toNat / 16).digitChar, (byte.toNat % 16).digitChar] := by
  obtain ⟨hhigh, hlow⟩ := digit_lt byte
  rw [horo_hexString, List.flatMap_singleton, hexByte_eq, List.map_cons, List.map_singleton,
    (digit_cases _ hhigh).2.2.2, (digit_cases _ hlow).2.2.2]

theorem flatMap_group (upper : Bool) (byte : UInt8) :
    (group upper byte).flatMap (lower L) =
      [digitUnit (byte.toNat / 16), digitUnit (byte.toNat % 16)] := by
  obtain ⟨hhigh, hlow⟩ := digit_lt byte
  rw [group, horo_hexString_singleton]
  cases upper with
  | false =>
    change lower L _ ++ (lower L _ ++ []) = _
    rw [lower_digit L hhigh (.inl rfl), lower_digit L hlow (.inl rfl)]
    rfl
  | true =>
    change lower L _ ++ (lower L _ ++ []) = _
    rw [lower_digit L hhigh (.inr rfl), lower_digit L hlow (.inr rfl)]
    rfl

theorem flatMap_spaced (upper : Bool) : ∀ {data : List UInt8} {gaps : List (List Char)},
    data.length = gaps.length → (spaced upper data gaps).flatMap (lower L) =
      fill (gaps.flatMap fun gap => none :: none :: (gap.flatMap (lower L)).map some) data
  | [], [], _ => rfl
  | byte :: data, gap :: gaps, h => by
    have ih := flatMap_spaced upper (Nat.succ.inj h)
    rw [spaced, List.flatMap_append, flatMap_group, List.flatMap_append, ih, List.flatMap_cons,
      ← fill_units]
    rfl

/-! ### Lower-casing -/

/-- Two units that are read alike. -/
def Alike (u v : UInt16) : Prop :=
  skipped (toChar u) = skipped (toChar v) ∧
    Hex.digitOf (ofChar (toChar u)) = Hex.digitOf (ofChar (toChar v))

theorem getData_congr : ∀ {us vs : List UInt16}, List.Forall₂ Alike us vs → getData us = getData vs
  | [], [], _ => rfl
  | [_], [_], _ => rfl
  | u :: next :: us, v :: next' :: vs, .cons hfirst hrest => by
    cases hu : skipped (toChar u) with
    | true =>
      rw [getData_skipped hu, getData_skipped (hfirst.1.symm.trans hu), getData_congr hrest]
    | false =>
      have hv : skipped (toChar v) = false := hfirst.1.symm.trans hu
      obtain ⟨d, hd⟩ := Option.isSome_iff_exists.mp (digitOf_of_not_skipped hu).1
      obtain ⟨hnext, hstring⟩ := List.forall₂_cons.mp hrest
      rw [getData_digit hu, getData_digit hv, wholeByte_eq hu hd, wholeByte_eq hv (hfirst.2.symm.trans hd),
        hnext.2, getData_congr hstring]

/-- The place of a sigma in its word does not matter. -/
theorem units_alike (before : List Char) (c : Char) (after : List Char) :
    List.Forall₂ Alike (L.units before c after) (lower L c) := by
  have hrefl : ∀ us : List UInt16, List.Forall₂ Alike us us := fun us =>
    List.forall₂_same.mpr fun _ _ => ⟨rfl, rfl⟩
  by_cases hc : c = 'Σ'
  · subst hc
    rw [lower, if_pos rfl]
    rcases List.mem_cons.mp (L.units_sigma before after) with h | h
    · rw [h]
      exact hrefl _
    · rw [List.mem_singleton.mp h]
      exact .cons ⟨by decide, by decide⟩ .nil
  · rw [lower, if_neg hc, L.units_eq before c after hc]
    exact hrefl _

theorem lowercaseFrom_alike : ∀ (before text : List Char),
    List.Forall₂ Alike (lowercaseFrom L before text) (text.flatMap (lower L))
  | _, [] => .nil
  | before, c :: cs => List.rel_append (units_alike L before c cs) (lowercaseFrom_alike (before ++ [c]) cs)

theorem layout_layout (before : List Char) (gaps : List (List Char)) :
    Layout gaps.length (layout L before gaps) :=
  layout_units _ (layout_gaps L gaps)

/-- What is read of a text with gaps. -/
theorem dataFromHex_spaced (upper : Bool) (before : List Char) {data : List UInt8}
    {gaps : List (List Char)} (hdata : data.length = gaps.length) :
    horo_dataFromHex L (before ++ spaced upper data gaps) =
      getData ((fill (layout L before gaps) data).take (readLength (layout L before gaps).length)) := by
  have htext : (before ++ spaced upper data gaps).flatMap (lower L) =
      fill (layout L before gaps) data := by
    rw [List.flatMap_append, flatMap_spaced L upper hdata, layout, fill_units]
  have halike := lowercaseFrom_alike L [] (before ++ spaced upper data gaps)
  rw [htext] at halike
  have hlength := halike.length_eq.trans ((layout_layout L before gaps).length_fill data hdata)
  change getData ((lowercaseFrom L [] (before ++ spaced upper data gaps)).take
    (readLength (lowercaseFrom L [] (before ++ spaced upper data gaps)).length)) = _
  rw [hlength]
  exact getData_congr (List.forall₂_take _ halike)

/-- **Whatever the bytes, they are read back of a text with gaps**, exactly
when its string is legible. -/
theorem dataFromHex_spaced_iff (upper : Bool) (before : List Char) (gaps : List (List Char)) :
    (∀ data : List UInt8, data.length = gaps.length →
      horo_dataFromHex L (before ++ spaced upper data gaps) = data) ↔
    Legible (readLength (layout L before gaps).length) (layout L before gaps) := by
  rw [← readBack_iff (layout_layout L before gaps)]
  refine forall₂_congr fun data hdata => ?_
  rw [dataFromHex_spaced L upper before hdata]

/-! ### The token itself, and separators -/

theorem readLength_of_lt {length : ℕ} (h : length < 2 ^ 31) : readLength length = length := by
  rw [readLength, Int32.toInt_ofNat_of_lt h, Int.toNat_natCast]

/-- From `2 ^ 31` characters on, some are not read. -/
theorem readLength_lt {length : ℕ} (h : 2 ^ 31 ≤ length) : readLength length < length := by
  rw [readLength, Int32.toInt_ofNat']
  have hbmod := Int.bmod_lt (x := (length : ℤ)) (m := Int32.size) (by decide)
  have hsize : ((Int32.size : ℤ) + 1) / 2 = 2 ^ 31 := by decide
  omega

theorem skipped_ascii {c : Char} (hascii : c.toNat < 128) (hdigit : Hex.digitOf c = none) :
    ∀ unit ∈ lower L c, skipped (toChar unit) = true := by
  have hcodes : ∀ n < 128, Hex.digitOf (Char.ofNat n) = none →
      skipped (toChar (Char.ofNat n).toLower.toNat.toUInt16) = true := by decide
  have hsigma : c ≠ 'Σ' := by
    rintro rfl
    exact absurd hascii (by decide)
  have hc := hcodes c.toNat hascii
  rw [Char.ofNat_toNat] at hc
  rw [lower, if_neg hsigma, L.units_ascii c hascii]
  exact List.forall_mem_singleton.mpr (hc hdigit)

/-- Separators that are ASCII are not taken for digits, if they are none. -/
theorem dataFromHex_ascii (upper : Bool) {before : List Char} {gaps : List (List Char)}
    (h : ∀ c ∈ before ++ gaps.flatten, c.toNat < 128 ∧ Hex.digitOf c = none)
    (hlength : (layout L before gaps).length < 2 ^ 31) {data : List UInt8}
    (hdata : data.length = gaps.length) :
    horo_dataFromHex L (before ++ spaced upper data gaps) = data := by
  have hunits : ∀ text : List Char, (∀ c ∈ text, c ∈ before ++ gaps.flatten) →
      ∀ unit, some unit ∈ (text.flatMap (lower L)).map some → skipped (toChar unit) = true := by
    intro text htext unit hunit
    obtain ⟨unit', hmem, heq⟩ := List.mem_map.mp hunit
    obtain ⟨c, hc, hlower⟩ := List.mem_flatMap.mp hmem
    obtain ⟨hascii, hdigit⟩ := h c (htext c hc)
    rw [← Option.some.inj heq]
    exact skipped_ascii L hascii hdigit unit' hlower
  have hlegible : Legible (layout L before gaps).length (layout L before gaps) := by
    rw [Legible, List.take_length, List.drop_length]
    refine ⟨fun unit hmem => ?_, List.not_mem_nil⟩
    rcases List.mem_append.mp (List.dropLast_subset _ hmem) with hbefore | hgaps
    · exact hunits before (fun c hc => List.mem_append_left _ hc) unit hbefore
    · obtain ⟨gap, hgap, hmem⟩ := List.mem_flatMap.mp hgaps
      rw [List.mem_cons, List.mem_cons, or_iff_right (by simp), or_iff_right (by simp)] at hmem
      exact hunits gap (fun c hc => List.mem_append_right _ (List.mem_flatten_of_mem hgap hc)) unit hmem
  rw [dataFromHex_spaced L upper before hdata, readLength_of_lt hlength]
  exact (readBack_iff (layout_layout L before gaps) _).mpr hlegible data hdata

/-- The text of the bytes is that of each byte. -/
theorem hexString_eq (upper : Bool) (data : List UInt8) :
    (if upper then (horo_hexString data).map Char.toUpper else horo_hexString data) =
      data.flatMap (group upper) := by
  have hhex : horo_hexString data = data.flatMap fun byte => horo_hexString [byte] := by
    rw [horo_hexString, List.map_flatMap]
    exact List.flatMap_congr fun byte _ => by rw [horo_hexString, List.flatMap_singleton]
  rw [hhex]
  cases upper with
  | false => rfl
  | true =>
    rw [if_pos rfl, List.map_flatMap]
    rfl

theorem spaced_nil (upper : Bool) : ∀ data : List UInt8,
    spaced upper data (List.replicate data.length []) = data.flatMap (group upper)
  | [] => rfl
  | byte :: data => by
    rw [List.length_cons, List.replicate_succ, spaced, List.nil_append, spaced_nil upper data]
    rfl

theorem layout_nil : ∀ n : ℕ, layout L [] (List.replicate n []) = List.replicate (2 * n) none
  | 0 => rfl
  | n + 1 => by
    have ih := layout_nil n
    rw [layout, List.flatMap_nil, List.map_nil, List.nil_append] at ih ⊢
    rw [List.replicate_succ, List.flatMap_cons, ih]
    rfl

/-- **The token is read back** exactly when an `int` can count its digits. -/
theorem dataFromHex_hexString_iff (upper : Bool) (n : ℕ) :
    (∀ data : List UInt8, data.length = n → horo_dataFromHex L
      (if upper then (horo_hexString data).map Char.toUpper else horo_hexString data) = data) ↔
    2 * n < 2 ^ 31 := by
  have hread := readBack_iff (layout_layout L [] (List.replicate n [])) (readLength (2 * n))
  rw [layout_nil, List.length_replicate, Legible, List.drop_replicate, List.mem_replicate] at hread
  have hunits : ∀ unit, some unit ∈ ((List.replicate (2 * n) none).take (readLength (2 * n))).dropLast →
      skipped (toChar unit) = true := fun unit hmem =>
    nomatch List.eq_of_mem_replicate (List.mem_of_mem_take (List.dropLast_subset _ hmem))
  rw [and_iff_right hunits] at hread
  calc _ ↔ ReadBack n (readLength (2 * n)) (List.replicate (2 * n) none) := by
        refine forall₂_congr fun data hdata => ?_
        have hgaps : data.length = (List.replicate data.length ([] : List Char)).length :=
          List.length_replicate.symm
        have hspaced := dataFromHex_spaced L upper [] hgaps
        rw [layout_nil, List.length_replicate, List.nil_append, spaced_nil] at hspaced
        rw [hexString_eq, hspaced, hdata]
    _ ↔ ¬ (2 * n - readLength (2 * n) ≠ 0 ∧ none = none) := hread
    _ ↔ 2 * n < 2 ^ 31 := by
        rcases Nat.lt_or_ge (2 * n) (2 ^ 31) with h | h
        · rw [readLength_of_lt h, Nat.sub_self]
          exact iff_of_true (fun hrest => hrest.1 rfl) h
        · have hlt := readLength_lt h
          exact iff_of_false (fun hrest => hrest ⟨by omega, rfl⟩) (by omega)

end

/-- Letter by letter, for the texts whose other letters are in lower case. -/
def Lowercase.simple : Lowercase where
  units _ c _ :=
    if c.toNat < 128 then [c.toLower.toNat.toUInt16]
    else if c = 'Σ' then [0x3C3]
    else if c.toNat < 0x10000 then [c.toNat.toUInt16]
    else [(0xD800 + (c.toNat - 0x10000) / 0x400).toUInt16, (0xDC00 + (c.toNat - 0x10000) % 0x400).toUInt16]
  units_ascii _ h := if_pos h
  units_sigma _ _ := List.mem_cons_self
  units_eq _ _ _ _ := rfl

/-- `а` is a Cyrillic letter. -/
theorem cyrillic_is_read :
    'а' ∉ "0123456789abcdefABCDEF".toList ∧
    horo_dataFromHex .simple ("а".toList ++ horo_hexString [0x61]) = [0x06] := by
  decide

end DeviceToken
end Horo
