/-
# The strings of ECMAScript

A string is the list of its characters. Positions count characters here and
code units there: they are used only to cut at a character that is one unit.

* `indexOf_append`, `indexOf_start`: the first position of a character.
* `trim_eq_self`: what `trim` leaves as it is.
-/
import Mathlib.Data.Bool.AllAny
import Mathlib.Data.List.DropRight

namespace Horo
namespace Lib
namespace EcmaString

/-- The characters of `\s` but for those from U+2000 to U+200A. -/
def spaces : List Char :=
  ['\t', '\n', '\x0b', '\x0c', '\r', ' ', '\u00a0', '\u1680', '\u2028', '\u2029', '\u202f', '\u205f',
    '\u3000', '\ufeff']

/-- `\s`: the white space and the line terminators. -/
def isSpace (c : Char) : Bool := c ∈ spaces ∨ 0x2000 ≤ c.toNat ∧ c.toNat ≤ 0x200a

/-- The printable characters of ASCII are none, but for the blank. -/
theorem isSpace_of_print {c : Char} (h : 33 ≤ c.toNat) (h' : c.toNat ≤ 126) : isSpace c = false := by
  have hspaces : ∀ d ∈ spaces, ¬ (33 ≤ d.toNat ∧ d.toNat ≤ 126) :=
    List.all_iff_forall_prop.mp (by decide)
  have hmem : c ∉ spaces := fun hc => hspaces c hc ⟨h, h'⟩
  rw [isSpace, decide_eq_false_iff_not, not_or]
  exact ⟨hmem, by omega⟩

/-- What has a letter as its lower case is a letter. -/
theorem print_of_toLower {c : Char} (h : 97 ≤ c.toLower.toNat) (h' : c.toLower.toNat ≤ 122) :
    33 ≤ c.toNat ∧ c.toNat ≤ 126 := by
  unfold Char.toLower at h h'
  split at h
  · rename_i hupper
    obtain ⟨hlow, hhigh⟩ := hupper
    have hlow' : 65 ≤ c.toNat := UInt32.le_iff_toNat_le.mp hlow
    have hhigh' : c.toNat ≤ 90 := UInt32.le_iff_toNat_le.mp hhigh
    omega
  · rename_i hnot
    rw [dif_neg hnot] at h'
    omega

/-- `indexOf`, from a position on; `none` for -1. -/
def indexOf (cs : List Char) (c : Char) (start : ℕ) : Option ℕ :=
  ((cs.drop start).idxOf? c).map (· + start)

theorem idxOf?_append {c : Char} (rest : List Char) : ∀ {cs : List Char}, c ∉ cs →
    (cs ++ c :: rest).idxOf? c = some cs.length
  | [], _ => by simp [List.idxOf?_cons]
  | d :: cs, h => by
    have hne : d ≠ c := fun he => h (he ▸ List.mem_cons_self)
    have ih := idxOf?_append rest (fun hc => h (List.mem_cons_of_mem d hc))
    rw [List.cons_append, List.idxOf?_cons, if_neg (by simpa using hne), ih]
    rfl

theorem indexOf_append {c : Char} {cs : List Char} (h : c ∉ cs) (rest : List Char) :
    indexOf (cs ++ c :: rest) c 0 = some cs.length := by
  rw [indexOf, List.drop_zero, idxOf?_append rest h]
  rfl

/-- The next position after a position. -/
theorem indexOf_start {c : Char} {cs : List Char} (h : c ∉ cs) (before rest : List Char) :
    indexOf (before ++ (cs ++ c :: rest)) c before.length = some (cs.length + before.length) := by
  rw [indexOf, List.drop_left, idxOf?_append rest h]
  rfl

/-- `str.replace(/^\s\s*/, '').replace(/\s\s*$/, '')`. -/
def trim (cs : List Char) : List Char := (cs.dropWhile isSpace).rdropWhile isSpace

/-- A text without blanks is not shortened. -/
theorem trim_eq_self {cs : List Char} (h : ∀ c ∈ cs.head?, isSpace c = false)
    (h' : ∀ c ∈ cs.getLast?, isSpace c = false) : trim cs = cs := by
  have hdrop : cs.dropWhile isSpace = cs := by
    cases cs with
    | nil => rfl
    | cons c cs => exact List.dropWhile_cons_of_neg (by simpa using h c rfl)
  rw [trim, hdrop]
  refine List.rdropWhile_eq_self_iff.mpr fun hne => ?_
  simpa using h' _ (List.getLast?_eq_getLast_of_ne_nil hne)

end EcmaString
end Lib
end Horo
