/-
# Storage classes and affinities of SQLite

What SQLite documents of the values of a column: a value has a storage class
of its own, and the affinity of the column decides what it is converted to
when it is stored. A text that is a well-formed number becomes one in a column
of numeric affinity; a number becomes a text in a column of text affinity.

Doubles are the decimals they are equal to, in lowest terms. `Doubles` is the
rounding to the nearest one: of it only what is documented is used, that
integers up to 2^53 are doubles and that 15 significant digits survive.
-/
import Horo.Lib.Numeral

namespace Horo
namespace Lib
namespace Sqlite

/-- A value with its storage class. -/
inductive Value
  | null
  | integer (i : Int)
  | real (d : Decimal)
  | text (s : String)
  deriving DecidableEq, Repr

/-- Rounding to the nearest double. -/
structure Doubles where
  nearest : Decimal → Decimal
  nearest_integer : ∀ i : Int, i.natAbs ≤ 2 ^ 53 → nearest ⟨i, 0⟩ = ⟨i, 0⟩
  /-- Fifteen significant digits survive, and a fraction remains one. -/
  nearest_digits : ∀ d : Decimal, d.mantissa.natAbs < 10 ^ 15 → d.scale ≤ 15 →
    d.isIntegral = false → (nearest d).isIntegral = false ∧ (nearest d).print 15 = d.print 15

/-- Rounding keeps the order of the integers. -/
def Doubles.Monotone (F : Doubles) : Prop :=
  ∀ i j : Int, i ≤ j → (F.nearest ⟨i, 0⟩).trunc ≤ (F.nearest ⟨j, 0⟩).trunc

inductive Affinity
  | text | numeric | integer
  deriving DecidableEq, Repr

/-- `sqlite3Isspace`. -/
def isSpace (c : Char) : Bool :=
  c == ' ' || c == '\t' || c == '\n' || c == '\x0b' || c == '\x0c' || c == '\r'

/-- A well-formed integer or real literal, blanks around it allowed: its value
and whether it is written as an integer. -/
def literal (cs : List Char) : Option (Decimal × Bool) :=
  let cs := cs.dropWhile isSpace
  match Decimal.scan cs with
  | some (d, rest) =>
    if rest.all isSpace then
      some (d, cs.all fun c => c != '.' && c != 'e' && c != 'E')
    else none
  | none => none

/-- An `int64`. -/
def fits (i : Int) : Bool := -2 ^ 63 ≤ i && i < 2 ^ 63

variable (F : Doubles)

/-- A double that is stored where integers are preferred. -/
def ofReal (d : Decimal) : Value :=
  if d.isIntegral ∧ fits d.trunc then .integer d.trunc else .real d

/-- The number a text is converted to. -/
def ofLiteral (d : Decimal) (isInteger : Bool) : Value :=
  if isInteger ∧ fits d.trunc then .integer d.trunc
  else ofReal (F.nearest d.norm)

/-- What is stored for a value. -/
def Affinity.store : Affinity → Value → Value
  | .text, .integer i => .text (String.ofList (intDigits i))
  | .text, .real d => .text (String.ofList (d.print 15))
  | .text, v => v
  | _, .real d => ofReal d
  | _, .text s =>
    match literal s.toList with
    | some (d, isInteger) => ofLiteral F d isInteger
    | none => .text s
  | _, v => v

/-- `sqlite3_column_text`; a null gives no text. -/
def Value.columnText : Value → Option String
  | .null => none
  | .integer i => some (String.ofList (intDigits i))
  | .real d => some (String.ofList (d.print 15))
  | .text s => some s

/-- The number at the start of a text. -/
def ofPrefix (cs : List Char) : Decimal :=
  match Decimal.scan (cs.dropWhile isSpace) with
  | some (d, _) => F.nearest d
  | none => ⟨0, 0⟩

/-- `sqlite3_column_double`. -/
def Value.columnDouble : Value → Decimal
  | .null => ⟨0, 0⟩
  | .integer i => F.nearest ⟨i, 0⟩
  | .real d => d
  | .text s => ofPrefix F s.toList

/-- `sqlite3_column_int`. -/
def Value.columnInt (v : Value) : Int :=
  match v with
  | .integer i => i
  | v => (v.columnDouble F).trunc

/-! ### Texts with a point in a numeric column -/

variable {F}

theorem store_of_literal_eq_none {s : String} (h : literal s.toList = none) :
    Affinity.numeric.store F (.text s) = .text s := by
  simp only [Affinity.store, h]

theorem store_of_fraction {s : String} {d : Decimal} (h : literal s.toList = some (d, false)) :
    Affinity.numeric.store F (.text s) = ofReal (F.nearest d.norm) := by
  simp [Affinity.store, h, ofLiteral]

theorem literal_point (i : Int) {frac rest : List Char} (hfrac : ∀ c ∈ frac, c.isDigit = true)
    (hrest : ∀ c ∈ rest.head?, c.isDigit = false ∧ c ≠ 'e' ∧ c ≠ 'E') :
    literal (intDigits i ++ '.' :: (frac ++ rest)) =
      if rest.all isSpace then
        some (⟨Decimal.signed i (Nat.ofDigitChars 10 frac i.natAbs), frac.length⟩, false)
      else none := by
  have hspace : (intDigits i ++ '.' :: (frac ++ rest)).dropWhile isSpace =
      intDigits i ++ '.' :: (frac ++ rest) := by
    rcases hcs : intDigits i with _ | ⟨c, cs⟩
    · exact absurd hcs (intDigits_ne_nil i)
    · have hc : isSpace c = false := by
        have hmem : c ∈ intDigits i := by rw [hcs]; exact List.mem_cons_self
        by_contra hne
        simp only [isSpace, Bool.not_eq_false, Bool.or_eq_true, beq_iff_eq] at hne
        have hc := mem_intDigits hmem
        rcases hne with ((((rfl | rfl) | rfl) | rfl) | rfl) | rfl <;> exact absurd hc (by decide)
      rw [List.cons_append, List.dropWhile_cons_of_neg (by simp [hc])]
  have hreal : (intDigits i ++ '.' :: (frac ++ rest)).all
      (fun c => c != '.' && c != 'e' && c != 'E') = false := by
    rw [List.all_append, List.all_cons]
    simp
  unfold literal
  simp only [hspace, Decimal.scan_point i hfrac hrest, hreal]

/-- A fraction of at most fifteen digits whose last one is not zero is given
back as it is printed. -/
theorem columnText_of_fraction {s : String} {d : Decimal} (h : literal s.toList = some (d, false))
    (hmod : d.mantissa % 10 ≠ 0) (hpos : d.scale ≠ 0) (hscale : d.scale ≤ 15)
    (hlt : d.mantissa.natAbs < 10 ^ 15) :
    (Affinity.numeric.store F (.text s)).columnText = some (String.ofList (d.print 15)) := by
  have hdigits := F.nearest_digits d hlt hscale (Decimal.isIntegral_of_mod_ne hmod hpos)
  have hstore : Affinity.numeric.store F (.text s) = .real (F.nearest d) := by
    rw [store_of_fraction h, Decimal.norm_of_mod_ne hmod]
    simp [ofReal, hdigits.1]
  rw [hstore, Value.columnText, hdigits.2]

/-- An integer that is written with the fraction zero loses it. -/
theorem columnText_of_zero_fraction {s : String} {i : Int}
    (h : literal s.toList = some (⟨10 * i, 1⟩, false)) (hi : i.natAbs ≤ 2 ^ 53) :
    (Affinity.numeric.store F (.text s)).columnText = some (String.ofList (intDigits i)) := by
  have hnorm : Decimal.norm ⟨10 * i, 1⟩ = ⟨i, 0⟩ := by simp [Decimal.norm, Decimal.reduce]
  have hfits : fits i = true := by
    simp only [fits, Bool.and_eq_true, decide_eq_true_eq]
    omega
  have hstore : Affinity.numeric.store F (.text s) = .integer i := by
    rw [store_of_fraction h, hnorm, F.nearest_integer i hi]
    simp [ofReal, Decimal.isIntegral, Decimal.trunc, hfits]
  rw [hstore, Value.columnText]

end Sqlite
end Lib
end Horo
