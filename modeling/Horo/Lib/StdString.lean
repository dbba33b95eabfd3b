/-
# Strings and their streams

`find` and `replace` of a `std::string`, and `getline` on a `std::stringstream`
with the flags that it sets.

* `takeWhile_ne_append`, `dropWhile_ne_append`: a text up to its first delimiter.
* `Scanned.unique`: there is one way to replace from left to right.
* `find_append`, `exists_of_firstOccurrence`: the first occurrence from a
  position on, and how the scan goes on behind it.
* `getline_delimeter`, `getline_last`: a line that ends with the delimiter, and
  the one that ends with the string.
-/
import Mathlib.Data.List.TakeWhile

namespace Horo
namespace Lib

/-! ### Up to a delimiter -/

section

variable {α : Type*} [DecidableEq α] {d : α} {part : List α}

theorem forall_ne_of_notMem (h : d ∉ part) : ∀ c ∈ part, decide (c ≠ d) = true := fun _ hc =>
  decide_eq_true fun he => h (he ▸ hc)

theorem takeWhile_ne_append (h : d ∉ part) (rest : List α) :
    (part ++ d :: rest).takeWhile (· ≠ d) = part := by
  rw [List.takeWhile_append_of_pos (forall_ne_of_notMem h), List.takeWhile_cons_of_neg (by simp),
    List.append_nil]

theorem dropWhile_ne_append (h : d ∉ part) (rest : List α) :
    (part ++ d :: rest).dropWhile (· ≠ d) = d :: rest := by
  rw [List.dropWhile_append_of_pos (forall_ne_of_notMem h), List.dropWhile_cons_of_neg (by simp)]

theorem takeWhile_ne_eq_self (h : d ∉ part) : part.takeWhile (· ≠ d) = part :=
  List.takeWhile_eq_self_iff.mpr (forall_ne_of_notMem h)

theorem dropWhile_ne_eq_nil (h : d ∉ part) : part.dropWhile (· ≠ d) = [] :=
  List.dropWhile_eq_nil_iff.mpr (forall_ne_of_notMem h)

end

/-! ### Replacing from left to right -/

section

variable {α : Type*}

/-- `str.replace( pos, n, text )`. -/
def replace (str : List α) (pos n : ℕ) (text : List α) : List α :=
  str.take pos ++ text ++ str.drop (pos + n)

theorem replace_append (front middle pattern rest text : List α) :
    replace (front ++ (middle ++ (pattern ++ rest))) (front.length + middle.length) pattern.length text =
      (front ++ (middle ++ text)) ++ rest := by
  have htake : (front ++ (middle ++ (pattern ++ rest))).take (front.length + middle.length) =
      front ++ middle := by
    rw [← List.append_assoc, ← List.length_append, List.take_left]
  have hdrop : (front ++ (middle ++ (pattern ++ rest))).drop
      (front.length + middle.length + pattern.length) = rest := by
    rw [← List.append_assoc, ← List.append_assoc, ← List.length_append, ← List.length_append,
      List.drop_left]
  rw [replace, htake, hdrop]
  simp

/-- A text is scanned from left to right: an occurrence is replaced and the
scan goes on behind it, any other character is kept. -/
inductive Scanned (pattern text : List α) : List α → List α → Prop
  | nil : Scanned pattern text [] []
  | replaced {rest result : List α} (h : Scanned pattern text rest result) :
      Scanned pattern text (pattern ++ rest) (text ++ result)
  | kept {c : α} {rest result : List α} (hno : ¬ pattern <+: c :: rest)
      (h : Scanned pattern text rest result) : Scanned pattern text (c :: rest) (c :: result)

variable {pattern text : List α}

/-- How a scan begins: at the end, with an occurrence, or with a character. -/
theorem Scanned.start {str result : List α} (h : Scanned pattern text str result) :
    (str = [] ∧ result = []) ∨
    (∃ rest result', str = pattern ++ rest ∧ result = text ++ result' ∧
      Scanned pattern text rest result') ∨
    ∃ c rest result', str = c :: rest ∧ result = c :: result' ∧ ¬ pattern <+: str ∧
      Scanned pattern text rest result' := by
  cases h with
  | nil => exact .inl ⟨rfl, rfl⟩
  | replaced h => exact .inr (.inl ⟨_, _, rfl, rfl, h⟩)
  | kept hno h => exact .inr (.inr ⟨_, _, _, rfl, rfl, hno, h⟩)

/-- **There is one way to scan a text.** -/
theorem Scanned.unique (hne : pattern ≠ []) {str result : List α} (h : Scanned pattern text str result) :
    ∀ {result' : List α}, Scanned pattern text str result' → result = result' := by
  induction h with
  | nil =>
    intro result' h'
    rcases h'.start with ⟨-, rfl⟩ | ⟨rest, _, hstr, -, -⟩ | ⟨_, _, _, hstr, -, -, -⟩
    · rfl
    · exact absurd (List.append_eq_nil_iff.mp hstr.symm).1 hne
    · cases hstr
  | @replaced rest result _ ih =>
    intro result' h'
    rcases h'.start with ⟨hstr, -⟩ | ⟨rest', result'', hstr, rfl, h''⟩ | ⟨_, _, _, -, -, hno, -⟩
    · exact absurd (List.append_eq_nil_iff.mp hstr).1 hne
    · obtain rfl := List.append_cancel_left hstr
      rw [ih h'']
    · exact absurd (List.prefix_append pattern rest) hno
  | @kept c rest result hno _ ih =>
    intro result' h'
    rcases h'.start with ⟨hstr, -⟩ | ⟨rest', _, hstr, -, -⟩ | ⟨c', rest', result'', hstr, rfl, -, h''⟩
    · cases hstr
    · exact absurd (hstr ▸ List.prefix_append pattern rest') hno
    · obtain ⟨rfl, rfl⟩ := List.cons.inj hstr
      rw [ih h'']

end

/-! ### Finding -/

section

variable {α : Type*} [DecidableEq α] {pattern text : List α}

/-- The first position at which a pattern occurs. -/
def firstOccurrence (pattern : List α) : List α → Option ℕ
  | [] => if pattern = [] then some 0 else none
  | c :: cs =>
    if pattern.isPrefixOf (c :: cs) then some 0 else (firstOccurrence pattern cs).map (· + 1)

/-- `str.find( pattern, pos )`; `none` for `npos`. -/
def find (str pattern : List α) (pos : ℕ) : Option ℕ :=
  if pos ≤ str.length then (firstOccurrence pattern (str.drop pos)).map (pos + ·) else none

/-- What stands before the position is not looked at. -/
theorem find_append (front rest pattern : List α) :
    find (front ++ rest) pattern front.length =
      (firstOccurrence pattern rest).map (front.length + ·) := by
  rw [find, if_pos (by rw [List.length_append]; exact Nat.le_add_right _ _), List.drop_left]

/-- Without an occurrence the scan keeps all that there is. -/
theorem scanned_of_firstOccurrence_eq_none (text : List α) : ∀ {str : List α},
    firstOccurrence pattern str = none → Scanned pattern text str str
  | [], _ => .nil
  | c :: cs, h => by
    rw [firstOccurrence] at h
    split at h
    · cases h
    · rename_i hprefix
      exact .kept (fun hp => hprefix (List.isPrefixOf_iff_prefix.mpr hp))
        (scanned_of_firstOccurrence_eq_none text (Option.map_eq_none_iff.mp h))

/-- Up to the first occurrence all is kept, and the scan goes on behind it. -/
theorem exists_of_firstOccurrence (text : List α) : ∀ {str : List α} {i : ℕ},
    firstOccurrence pattern str = some i → ∃ middle rest, str = middle ++ (pattern ++ rest) ∧
      middle.length = i ∧ ∀ {result : List α}, Scanned pattern text rest result →
        Scanned pattern text str (middle ++ (text ++ result))
  | [], i, h => by
    rw [firstOccurrence] at h
    split at h
    · rename_i hnil
      obtain rfl := Option.some.inj h
      exact ⟨[], [], by rw [hnil]; rfl, rfl, fun hrest => by simpa [hnil] using hrest.replaced⟩
    · cases h
  | c :: cs, i, h => by
    rw [firstOccurrence] at h
    split at h
    · rename_i hprefix
      obtain rfl := Option.some.inj h
      obtain ⟨rest, hrest⟩ := List.isPrefixOf_iff_prefix.mp hprefix
      exact ⟨[], rest, hrest.symm, rfl, fun hscan => hrest ▸ hscan.replaced⟩
    · rename_i hprefix
      obtain ⟨j, hj, rfl⟩ := Option.map_eq_some_iff.mp h
      obtain ⟨middle, rest, hstr, hlength, hscan⟩ := exists_of_firstOccurrence text hj
      refine ⟨c :: middle, rest, by rw [hstr, List.cons_append], by rw [List.length_cons, hlength], ?_⟩
      exact fun hrest => .kept (fun hp => hprefix (List.isPrefixOf_iff_prefix.mpr hp)) (hscan hrest)

end

/-! ### Lines of a stream -/

/-- A `stringstream`: what has not been extracted, and the flags. -/
structure StringStream (α : Type*) where
  rest : List α
  eofbit : Bool
  failbit : Bool

namespace StringStream

variable {α : Type*}

/-- `stringstream ss( str )`. -/
def ofString (str : List α) : StringStream α := ⟨str, false, false⟩

def good (ss : StringStream α) : Bool := !ss.eofbit && !ss.failbit

@[simp] theorem good_ofString (str : List α) : (ofString str).good = true := rfl

variable [DecidableEq α]

/-- `getline( ss, substr, delim )`, and what `substr` is then. A delimiter is
extracted and counts as a character; without any the line fails. -/
def getline (ss : StringStream α) (substr : List α) (delim : α) : List α × StringStream α :=
  if ss.good then
    let substr := ss.rest.takeWhile (· ≠ delim)
    match ss.rest.dropWhile (· ≠ delim) with
    | _ :: rest => (substr, { ss with rest })
    | [] => (substr, { rest := [], eofbit := true, failbit := substr.isEmpty })
  else (substr, { ss with failbit := true })

/-- A line that ends with the delimiter. -/
theorem getline_delimeter {part : List α} {delim : α} (h : delim ∉ part) (rest substr : List α) :
    (ofString (part ++ delim :: rest)).getline substr delim = (part, ofString rest) := by
  rw [getline, if_pos (good_ofString _)]
  simp only [ofString, takeWhile_ne_append h, dropWhile_ne_append h]

/-- The line that ends with the string. -/
theorem getline_last {part : List α} {delim : α} (h : delim ∉ part) (substr : List α) :
    (ofString part).getline substr delim = (part, ⟨[], true, part.isEmpty⟩) := by
  rw [getline, if_pos (good_ofString _)]
  simp only [ofString, takeWhile_ne_eq_self h, dropWhile_ne_eq_nil h]

end StringStream

end Lib
end Horo
