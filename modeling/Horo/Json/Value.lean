/-
# The values of jsoncpp

`Components/jsoncpp/src/lib_json/json_value.cpp`: what the modelled code uses
of it. A conversion jsoncpp refuses (it throws) is `none`. Comments, which no
modelled function sets, are left out.
-/
import Horo.Lib.Numeral

namespace Horo
namespace Json

open Lib

/-- What a C string keeps of a text: all up to the first NUL. -/
def cstr (s : String) : String := String.ofList (s.toList.takeWhile (· ≠ '\x00'))

@[simp] theorem cstr_cstr (s : String) : cstr (cstr s) = cstr s := by
  simp [cstr, List.takeWhile_takeWhile]

theorem nul_notMem_cstr (s : String) : '\x00' ∉ (cstr s).toList := by
  intro h
  rw [cstr, String.toList_ofList] at h
  simpa using List.mem_takeWhile_imp h

theorem cstr_of_notMem {s : String} (h : '\x00' ∉ s.toList) : cstr s = s := by
  have hall : s.toList.takeWhile (· ≠ '\x00') = s.toList :=
    List.takeWhile_eq_self_iff.mpr fun c hc => decide_eq_true fun he => h (he ▸ hc)
  rw [cstr, hall, String.ofList_toList]

/-- A text without a NUL is all of a C string. -/
theorem cstr_eq_self_iff {s : String} : cstr s = s ↔ '\x00' ∉ s.toList :=
  ⟨fun h => h ▸ nul_notMem_cstr s, cstr_of_notMem⟩

/-- `Json::Value`, by its type. The members of an object stand in the order of
their names, as `std::map` keeps them. -/
inductive Value
  | null
  | int (i : Int)
  | uint (n : ℕ)
  | real (d : Decimal)
  | string (s : String)
  | bool (b : Bool)
  | array (xs : List Value)
  | object (members : List (String × Value))
  deriving Repr

/-- The members of an object. -/
abbrev Members := List (String × Value)

/-- `strcmp` is negative. The bytes of two texts are in the order of their characters. -/
def strcmpLess : List Char → List Char → Bool
  | [], [] => false
  | [], _ :: _ => true
  | _ :: _, [] => false
  | c :: cs, d :: ds => if c = d then strcmpLess cs ds else decide (c.toNat < d.toNat)

/-- The order of the members: `CZString::operator<`. -/
def Before (a b : String × Value) : Prop := strcmpLess a.1.toList b.1.toList = true

def Members.set (members : Members) (key : String) (value : Value) : Members :=
  match members with
  | [] => [(key, value)]
  | (k, v) :: rest =>
    if key = k then (k, value) :: rest
    else if strcmpLess key.toList k.toList then (key, value) :: (k, v) :: rest
    else (k, v) :: Members.set rest key value

theorem strcmpLess_self : ∀ cs : List Char, strcmpLess cs cs = false
  | [] => rfl
  | c :: cs => by rw [strcmpLess, if_pos rfl, strcmpLess_self cs]

theorem strcmpLess_asymm : ∀ {cs ds : List Char}, strcmpLess cs ds = true → strcmpLess ds cs = false
  | [], _ :: _, _ => rfl
  | c :: cs, d :: ds, h => by
    rw [strcmpLess] at h ⊢
    by_cases hcd : c = d
    · rw [if_pos hcd] at h
      rw [if_pos hcd.symm, strcmpLess_asymm h]
    · rw [if_neg hcd, decide_eq_true_eq] at h
      rw [if_neg (Ne.symm hcd), decide_eq_false_iff_not]
      omega

namespace Value

def minInt : Int := -2 ^ 31
def maxInt : Int := 2 ^ 31 - 1
def maxLargestUInt : ℕ := 2 ^ 64 - 1

/-- The value is one of an `int`. -/
def InIntRange (i : Int) : Prop := minInt ≤ i ∧ i ≤ maxInt

instance (i : Int) : Decidable (InIntRange i) := inferInstanceAs (Decidable (_ ∧ _))

/-- A number as an `int`, when it is one. -/
def toInt32 (i : Int) : Option Int32 := if InIntRange i then some (Int32.ofInt i) else none

/-- `InRange`: the double itself is compared, not its integer part. -/
def InRange (d : Decimal) (lo hi : Int) : Prop :=
  lo * 10 ^ d.scale ≤ d.mantissa ∧ d.mantissa ≤ hi * 10 ^ d.scale

instance (d : Decimal) (lo hi : Int) : Decidable (InRange d lo hi) := inferInstanceAs (Decidable (_ ∧ _))

/-- `asInt` counts a bool as a number. -/
def asInt : Value → Option Int32
  | int i => toInt32 i
  | uint n => toInt32 n
  | real d => if InRange d minInt maxInt then some (Int32.ofInt d.trunc) else none
  | null => some 0
  | bool b => some (if b then 1 else 0)
  | _ => none

/-- A double from 2^64 on is no `uint64`; at 2^64 itself, which `InRange` lets
pass, the conversion is undefined. -/
def asUInt64 : Value → Option UInt64
  | int i => if 0 ≤ i then some (UInt64.ofInt i) else none
  | uint n => some (UInt64.ofNat n)
  | real d => if 0 ≤ d.mantissa ∧ d.trunc ≤ maxLargestUInt then some (UInt64.ofInt d.trunc) else none
  | null => some 0
  | bool b => some (if b then 1 else 0)
  | _ => none

def asBool : Value → Option Bool
  | bool b => some b
  | null => some false
  | int i => some (i != 0)
  | uint n => some (n != 0)
  | real d => some (d.mantissa != 0)
  | _ => none

/-- `valueToString( bool )`. -/
def boolToString (b : Bool) : String := if b then "true" else "false"

def asString : Value → Option String
  | null => some ""
  | string s => some (cstr s)
  | bool b => some (boolToString b)
  | int i => some (String.ofList (intDigits i))
  | uint n => some (String.ofList (intDigits n))
  | real d => some (String.ofList (d.print 16))
  | _ => none

theorem inIntRange_toInt (i : Int32) : InIntRange i.toInt :=
  ⟨i.le_toInt, Int.le_of_lt_add_one i.toInt_lt⟩

theorem toNat_ofInt (i : Int) : (UInt64.ofInt i).toNat = (i % 2 ^ 64).toNat := by
  rw [UInt64.ofInt, UInt64.toNat_ofNat']
  omega

/-- An `int64` is a number of that size only if it is that number. -/
theorem toNat_ofInt_eq_iff {i j : Int} (hi : -2 ^ 63 ≤ i ∧ i < 2 ^ 63) (hj : 0 ≤ j ∧ j < 2 ^ 63) :
    (UInt64.ofInt i).toNat = j.toNat ↔ i = j := by
  rw [toNat_ofInt]
  rcases Int.lt_or_le i 0 with h | h
  · have hmod : i % 2 ^ 64 = i + 2 ^ 64 := by omega
    rw [hmod]
    omega
  · rw [Int.emod_eq_of_lt h (by omega)]
    omega

@[simp] theorem ofInt_toNat (n : UInt64) : UInt64.ofInt n.toNat = n := by
  have hlt := n.toNat_lt
  rw [← UInt64.toNat_inj, toNat_ofInt]
  omega

@[simp] theorem toInt32_toInt (i : Int32) : toInt32 i.toInt = some i := by
  rw [toInt32, if_pos (inIntRange_toInt i), Int32.ofInt_toInt]

theorem toInt_of_toInt32 {v : Int} {i : Int32} (h : toInt32 v = some i) : i.toInt = v := by
  unfold toInt32 at h
  split at h
  · rename_i hrange
    rw [← Option.some.inj h]
    exact Int32.toInt_ofInt_of_le hrange.1 (Int.lt_add_one_of_le hrange.2)
  · cases h

@[simp] theorem asInt_int (i : Int32) : (int i.toInt).asInt = some i := toInt32_toInt i

/-- Half of one beyond the greatest `int` is refused, though its integer part is none beyond. -/
example : (real ⟨21474836475, 1⟩).asInt = none ∧ toInt32 (Decimal.trunc ⟨21474836475, 1⟩) ≠ none := by
  decide

@[simp] theorem asInt_real (i : Int32) : (real ⟨i.toInt, 0⟩).asInt = some i := by
  have hrange : InRange ⟨i.toInt, 0⟩ minInt maxInt := by
    simpa [InRange, InIntRange] using inIntRange_toInt i
  have htrunc : (⟨i.toInt, 0⟩ : Decimal).trunc = i.toInt := by simp [Decimal.trunc]
  rw [asInt, if_pos hrange, htrunc, Int32.ofInt_toInt]

/-- `value[ key ]`, read: what is missing is null. -/
def get (value : Value) (key : String) : Option Value :=
  match value with
  | null => some null
  | object members => some ((members.lookup (cstr key)).getD null)
  | _ => none

theorem get_object {members : Members} {key : String} {value : Value} (hkey : cstr key = key)
    (h : members.lookup key = some value) : (object members).get key = some value := by
  rw [get, hkey, h, Option.getD_some]

end Value

end Json
end Horo
