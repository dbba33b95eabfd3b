/-
# Texts

`src/base/horobase.cc`, and the parts of the C++ library it is used with.
-/
import Horo.Json.Value
import Horo.Lib.Hex
import Horo.Lib.StdString

namespace Horo

open Lib

/-- The loop of `separateString`: what `getline` has read of the current part,
and what it has still to read. -/
def separateFrom (delimeter : Char) (substr : List Char) : List Char → List (List Char)
  | [] => if substr = [] then [] else [substr]
  | c :: cs =>
    if c = delimeter then
      if substr = [] then separateFrom delimeter [] cs
      else substr :: separateFrom delimeter [] cs
    else separateFrom delimeter (substr ++ [c]) cs

def separateString (str : List Char) (delimeter : Char) : List (List Char) :=
  separateFrom delimeter [] str

/-- `isspace`. -/
def isspace (c : Char) : Bool :=
  c == ' ' || c == '\t' || c == '\n' || c == '\x0b' || c == '\x0c' || c == '\r'

/-- `std::stoi`: `none` where it throws. -/
def stoi (str : List Char) : Option Int32 :=
  let (neg, cs) := Decimal.signOf (str.dropWhile isspace)
  let ds := digitsOf cs
  let value : Int := Nat.ofDigitChars 10 ds 0
  if ds = [] then none else Json.Value.toInt32 (if neg then -value else value)

/-- `strtol`, in base 16. -/
def strtol16 (str : List Char) : ℤ := Hex.read (str.dropWhile isspace)

/-- `std::to_string`. -/
def toString (i : Int32) : List Char := intDigits i.toInt

/-- `find( pattern ) != npos`. -/
def contains (pattern : List Char) : List Char → Bool
  | [] => pattern.isEmpty
  | c :: cs => pattern.isPrefixOf (c :: cs) || contains pattern cs

/-- `ReplaceAll`, for a `from` that is not empty: `skip` characters belong to
an occurrence that has been replaced. -/
def replaceFrom (fromText toText : List Char) : ℕ → List Char → List Char
  | _, [] => []
  | skip + 1, _ :: cs => replaceFrom fromText toText skip cs
  | 0, c :: cs =>
    if fromText.isPrefixOf (c :: cs) then
      toText ++ replaceFrom fromText toText (fromText.length - 1) cs
    else c :: replaceFrom fromText toText 0 cs

def replaceAll (str fromText toText : List Char) : List Char := replaceFrom fromText toText 0 str

/-- No hexadecimal digit is a blank. -/
theorem isspace_of_digitOf {c : Char} (h : (Hex.digitOf c).isSome = true) : isspace c = false := by
  rw [← Bool.not_eq_true]
  intro hspace
  simp only [isspace, Bool.or_eq_true, beq_iff_eq] at hspace
  rcases hspace with ((((rfl | rfl) | rfl) | rfl) | rfl) | rfl <;> cases h

theorem dropWhile_isspace_of_digitOf {c : Char} (h : (Hex.digitOf c).isSome = true) (cs : List Char) :
    (c :: cs).dropWhile isspace = c :: cs := by
  have hc : ¬ isspace c = true := by
    rw [isspace_of_digitOf h]
    exact Bool.false_ne_true
  exact List.dropWhile_cons_of_neg hc

/-! ### Reading back what `toString` writes -/

/-- A part up to a delimiter. -/
theorem separateFrom_append {d : Char} {cs : List Char} : ∀ {substr part : List Char},
    d ∉ part → substr ++ part ≠ [] →
    separateFrom d substr (part ++ d :: cs) = (substr ++ part) :: separateString cs d
  | substr, [], _, hne => by
    rw [List.append_nil] at hne ⊢
    rw [List.nil_append, separateFrom, if_pos rfl, if_neg hne]
    rfl
  | substr, c :: part, hd, hne => by
    have hc : c ≠ d := fun he => hd (he ▸ List.mem_cons_self)
    have ih := @separateFrom_append d cs (substr ++ [c]) part
      (fun hm => hd (List.mem_cons_of_mem _ hm)) (by simp)
    rw [List.cons_append, separateFrom, if_neg hc, ih]
    simp

/-- The last part. -/
theorem separateFrom_last {d : Char} : ∀ {substr part : List Char}, d ∉ part →
    substr ++ part ≠ [] → separateFrom d substr part = [substr ++ part]
  | substr, [], _, hne => by
    rw [List.append_nil] at hne ⊢
    rw [separateFrom, if_neg hne]
  | substr, c :: part, hd, hne => by
    have hc : c ≠ d := fun he => hd (he ▸ List.mem_cons_self)
    have ih := @separateFrom_last d (substr ++ [c]) part
      (fun hm => hd (List.mem_cons_of_mem _ hm)) (by simp)
    rw [separateFrom, if_neg hc, ih]
    simp

theorem separateString_append {d : Char} {part cs : List Char} (hd : d ∉ part) (hne : part ≠ []) :
    separateString (part ++ d :: cs) d = part :: separateString cs d :=
  @separateFrom_append d cs [] part hd hne

theorem separateString_last {d : Char} {part : List Char} (hd : d ∉ part) (hne : part ≠ []) :
    separateString part d = [part] :=
  @separateFrom_last d [] part hd hne

/-- A delimiter at the start is passed over. -/
theorem separateString_delimeter (d : Char) (cs : List Char) :
    separateString (d :: cs) d = separateString cs d := by
  rw [separateString, separateFrom, if_pos rfl, if_pos rfl]
  rfl

/-- The parts that are kept are the ones that are not empty. -/
theorem separateFrom_eq (d : Char) : ∀ cs substr : List Char,
    separateFrom d substr cs = (cs.splitOnPPrepend (· == d) substr.reverse).filter (· ≠ [])
  | [], substr => by
    rw [separateFrom, List.splitOnPPrepend_nil, List.reverse_reverse]
    by_cases h : substr = []
    · rw [if_pos h, h]
      rfl
    · rw [if_neg h, List.filter_singleton, decide_eq_true h]
      rfl
  | c :: cs, substr => by
    rw [separateFrom]
    by_cases hc : c = d
    · rw [if_pos hc, List.splitOnPPrepend_cons_pos (p := (· == d)) (beq_iff_eq.mpr hc),
        separateFrom_eq d cs [], List.reverse_reverse, List.filter_cons]
      by_cases h : substr = []
      · simp [h]
      · simp [h]
    · rw [if_neg hc, List.splitOnPPrepend_cons_neg (p := (· == d)) (beq_eq_false_iff_ne.mpr hc),
        separateFrom_eq d cs (substr ++ [c]), List.reverse_append]
      rfl

theorem separateString_eq (str : List Char) (d : Char) :
    separateString str d = (str.splitOn d).filter (· ≠ []) :=
  separateFrom_eq d str []

/-- A part has no other characters than the text. -/
theorem subset_of_mem_separateFrom {d : Char} : ∀ {cs substr part : List Char},
    part ∈ separateFrom d substr cs → part ⊆ substr ++ cs
  | [], substr, part, h => by
    rw [separateFrom] at h
    split at h
    · cases h
    · rw [List.mem_singleton.mp h, List.append_nil]
      exact List.Subset.refl _
  | c :: cs, substr, part, h => by
    have hrest : ∀ {front : List Char}, part ∈ separateFrom d front cs →
        (∀ x ∈ front, x ∈ substr ++ c :: cs) → part ⊆ substr ++ c :: cs := by
      intro front hpart hfront x hx
      rcases List.mem_append.mp (subset_of_mem_separateFrom hpart hx) with hx | hx
      · exact hfront x hx
      · exact List.mem_append_right _ (List.mem_cons_of_mem _ hx)
    rw [separateFrom] at h
    split at h
    · split at h
      · exact hrest h fun x hx => absurd hx List.not_mem_nil
      · rcases List.mem_cons.mp h with rfl | h
        · exact List.subset_append_left _ _
        · exact hrest h fun x hx => absurd hx List.not_mem_nil
    · refine hrest h fun x hx => ?_
      rcases List.mem_append.mp hx with hx | hx
      · exact List.mem_append_left _ hx
      · rw [List.mem_singleton.mp hx]
        exact List.mem_append_right _ List.mem_cons_self

theorem subset_of_mem_separateString {d : Char} {str part : List Char}
    (h : part ∈ separateString str d) : part ⊆ str := subset_of_mem_separateFrom h

theorem dot_notMem_toString (i : Int32) : '.' ∉ toString i := by
  intro h
  rcases mem_intDigits h with h | h <;> cases h

theorem toString_ne_nil (i : Int32) : toString i ≠ [] := intDigits_ne_nil _

theorem isspace_of_isDigit {c : Char} (h : c.isDigit = true) : isspace c = false := by
  by_contra hspace
  simp only [isspace, Bool.not_eq_false, Bool.or_eq_true, beq_iff_eq] at hspace
  rcases hspace with ((((rfl | rfl) | rfl) | rfl) | rfl) | rfl <;> exact absurd h (by decide)

theorem isspace_of_mem_intDigits {i : Int} {c : Char} (h : c ∈ intDigits i) : isspace c = false := by
  rcases mem_intDigits h with rfl | hdigit
  · rfl
  · exact isspace_of_isDigit hdigit

/-- A numeral is read back, if it is one of an `int`. -/
theorem stoi_intDigits (i : Int) : stoi (intDigits i) = Json.Value.toInt32 i := by
  have hspace : (intDigits i).dropWhile isspace = intDigits i := by
    rcases h : intDigits i with _ | ⟨c, cs⟩
    · rfl
    · have hmem : c ∈ intDigits i := by rw [h]; exact List.mem_cons_self
      have hc : isspace c = false := isspace_of_mem_intDigits hmem
      rw [List.dropWhile_cons_of_neg (by simp [hc])]
  have hdigits : digitsOf (Nat.toDigits 10 i.natAbs) = Nat.toDigits 10 i.natAbs := by
    have h := @digitsOf_append (Nat.toDigits 10 i.natAbs) []
      (fun c hc => isDigit_of_mem_toDigits hc) (by simp)
    simpa using h
  have habs : (if decide (i < 0) = true then -(i.natAbs : Int) else i.natAbs) = i := by
    by_cases h : i < 0
    · rw [if_pos (decide_eq_true h)]; omega
    · rw [if_neg (by simpa using h)]; omega
  have hsign := Decimal.signOf_intDigits i []
  rw [List.append_nil, List.append_nil] at hsign
  unfold stoi
  rw [hspace, hsign]
  simp only [hdigits, Nat.ofDigitChars_ten_toDigits, if_neg Nat.toDigits_ne_nil, habs]

theorem signOf_of_isDigit {c : Char} {cs : List Char} (h : c.isDigit = true) :
    Decimal.signOf (c :: cs) = (false, c :: cs) := by
  unfold Decimal.signOf
  split
  · rename_i heq
    rw [(List.cons.inj heq).1] at h
    cases h
  · rename_i heq
    rw [(List.cons.inj heq).1] at h
    cases h
  · rfl

/-- Digits are read up to what follows them, whatever zeros they start with. -/
theorem stoi_append {ds rest : List Char} (hne : ds ≠ []) (hds : ∀ c ∈ ds, c.isDigit = true)
    (hrest : ∀ c ∈ rest.head?, c.isDigit = false) :
    stoi (ds ++ rest) = Json.Value.toInt32 (Nat.ofDigitChars 10 ds 0) := by
  have hdigits : digitsOf (ds ++ rest) = ds := digitsOf_append hds hrest
  obtain ⟨c, cs, rfl⟩ := List.exists_cons_of_ne_nil hne
  have hc := hds c List.mem_cons_self
  have hspace : (c :: cs ++ rest).dropWhile isspace = c :: cs ++ rest := by
    rw [List.cons_append, List.dropWhile_cons_of_neg]
    simp [isspace_of_isDigit hc]
  have hsign : Decimal.signOf (c :: cs ++ rest) = (false, c :: cs ++ rest) := signOf_of_isDigit hc
  unfold stoi
  rw [hspace, hsign]
  simp only [hdigits, hne, if_false, Bool.false_eq_true]

theorem stoi_digits {ds : List Char} (hne : ds ≠ []) (hds : ∀ c ∈ ds, c.isDigit = true) :
    stoi ds = Json.Value.toInt32 (Nat.ofDigitChars 10 ds 0) := by
  have hread : stoi (ds ++ []) = _ := stoi_append hne hds (by simp)
  rw [List.append_nil] at hread
  exact hread

/-- Digits after a sign. -/
theorem stoi_neg {ds : List Char} (hne : ds ≠ []) (hds : ∀ c ∈ ds, c.isDigit = true) :
    stoi ('-' :: ds) = Json.Value.toInt32 (-(Nat.ofDigitChars 10 ds 0 : ℤ)) := by
  have hdigits : digitsOf ds = ds := List.takeWhile_eq_self_iff.mpr hds
  have hspace : ('-' :: ds).dropWhile isspace = '-' :: ds := by
    rw [List.dropWhile_cons_of_neg]
    decide
  unfold stoi
  rw [hspace, Decimal.signOf]
  simp only [hdigits, hne, if_false, if_true]

theorem stoi_toString (i : Int32) : stoi (toString i) = some i := by
  rw [toString, stoi_intDigits, Json.Value.toInt32_toInt]

/-! ### Words -/

/-- Deleting a character everywhere. -/
theorem replaceAll_singleton (d : Char) : ∀ cs : List Char,
    replaceAll cs [d] [] = cs.filter (· ≠ d)
  | [] => rfl
  | c :: cs => by
    have ih := replaceAll_singleton d cs
    unfold replaceAll at ih ⊢
    rw [replaceFrom]
    by_cases hc : c = d
    · rw [if_pos (by simp [hc]), List.filter_cons_of_neg (by simp [hc]), List.nil_append]
      exact ih
    · rw [if_neg (by simp [Ne.symm hc]), List.filter_cons_of_pos (by simp [hc]), ih]

/-- Writing two blanks as one does not change the words. -/
theorem separateFrom_replaceFrom : ∀ (cs substr : List Char),
    separateFrom ' ' substr (replaceFrom [' ', ' '] [' '] 0 cs) = separateFrom ' ' substr cs
  | [], _ => rfl
  | [c], substr => by
    rw [replaceFrom, if_neg (by simp), replaceFrom]
  | c :: c' :: cs, substr => by
    rw [replaceFrom]
    by_cases hblanks : c = ' ' ∧ c' = ' '
    · obtain ⟨rfl, rfl⟩ := hblanks
      have ih := separateFrom_replaceFrom cs []
      rw [if_pos (by simp)]
      simp only [List.length_cons, List.length_nil, Nat.add_sub_cancel, List.singleton_append,
        Nat.zero_add, replaceFrom, separateFrom, if_true, ih]
    · have hprefix : ¬ [' ', ' '].isPrefixOf (c :: c' :: cs) = true := by
        simp only [List.isPrefixOf, Bool.and_eq_true, beq_iff_eq, and_true]
        exact fun h => hblanks ⟨h.1.symm, h.2.symm⟩
      rw [if_neg hprefix]
      simp only [separateFrom, separateFrom_replaceFrom (c' :: cs)]

theorem separateString_replaceAll (cs : List Char) :
    separateString (replaceAll cs [' ', ' '] [' ']) ' ' = separateString cs ' ' :=
  separateFrom_replaceFrom cs []

/-- Deleting characters from a text deletes them from its parts, and parts of
which nothing is left. -/
theorem separateFrom_filter {d : Char} {p : Char → Bool} (hp : p d = true) : ∀ cs substr : List Char,
    separateFrom d (substr.filter p) (cs.filter p) =
      ((separateFrom d substr cs).map (List.filter p)).filter (· ≠ [])
  | [], substr => by
    rw [List.filter_nil, separateFrom, separateFrom]
    by_cases hsubstr : substr = []
    · simp [hsubstr]
    · by_cases hleft : substr.filter p = []
      · simp [hsubstr, hleft]
      · simp only [hsubstr, hleft, if_false, List.map_cons, List.map_nil]
        rw [List.filter_cons_of_pos (by simpa using hleft), List.filter_nil]
  | c :: cs, substr => by
    rw [separateFrom]
    by_cases hc : c = d
    · have ih := separateFrom_filter hp cs []
      rw [List.filter_nil] at ih
      subst hc
      rw [List.filter_cons_of_pos hp, separateFrom, if_pos rfl, if_pos rfl, ih]
      by_cases hsubstr : substr = []
      · simp [hsubstr]
      · by_cases hleft : substr.filter p = []
        · rw [if_pos hleft, if_neg hsubstr, List.map_cons, List.filter_cons_of_neg (by simpa using hleft)]
        · rw [if_neg hleft, if_neg hsubstr, List.map_cons, List.filter_cons_of_pos (by simpa using hleft)]
    · have ih := separateFrom_filter hp cs (substr ++ [c])
      rw [if_neg hc, ← ih, List.filter_append]
      by_cases hkeep : p c = true
      · rw [List.filter_cons_of_pos hkeep, separateFrom, if_neg hc, List.filter_cons_of_pos hkeep,
          List.filter_nil]
      · rw [List.filter_cons_of_neg hkeep, List.filter_cons_of_neg hkeep, List.filter_nil,
          List.append_nil]

theorem separateString_filter {d : Char} {p : Char → Bool} (hp : p d = true) (cs : List Char) :
    separateString (cs.filter p) d = ((separateString cs d).map (List.filter p)).filter (· ≠ []) :=
  separateFrom_filter hp cs []

/-! ### Occurrences -/

theorem contains_iff_isInfix (pattern : List Char) : ∀ cs : List Char,
    contains pattern cs = true ↔ pattern <:+: cs
  | [] => by rw [contains, List.isEmpty_iff, List.infix_nil]
  | c :: cs => by
    rw [contains, Bool.or_eq_true, List.isPrefixOf_iff_prefix, contains_iff_isInfix pattern cs,
      List.infix_cons_iff]

/-- A pattern does not occur across a character that is not in it. -/
theorem isInfix_append_cons_iff {pattern a b : List Char} {c : Char} (hc : c ∉ pattern) :
    pattern <:+: a ++ c :: b ↔ pattern <:+: a ∨ pattern <:+: b := by
  constructor
  · rintro ⟨s, t, h⟩
    rw [List.append_assoc] at h
    rcases List.append_eq_append_iff.mp h with ⟨a', rfl, hrest⟩ | ⟨c', rfl, hrest⟩
    · -- the pattern starts before the character, and ends before it
      rcases List.append_eq_append_iff.mp hrest with ⟨a'', rfl, -⟩ | ⟨c', rfl, hcut⟩
      · exact .inl ⟨s, a'', (List.append_assoc ..)⟩
      · rcases c' with _ | ⟨d, c'⟩
        · exact .inl ⟨s, [], by rw [List.append_nil, List.append_nil]⟩
        · rw [(List.cons.inj hcut).1] at hc
          simp at hc
    · rcases c' with _ | ⟨d, c'⟩
      · rcases pattern with _ | ⟨d, pattern⟩
        · exact .inl ⟨[], a, rfl⟩
        · rw [(List.cons.inj hrest).1] at hc
          simp at hc
      · rw [List.cons_append] at hrest
        exact .inr ⟨c', t, by rw [(List.cons.inj hrest).2, List.append_assoc]⟩
  · rintro (⟨s, t, rfl⟩ | ⟨s, t, rfl⟩)
    · exact ⟨s, t ++ c :: b, by simp⟩
    · exact ⟨a ++ c :: s, t, by simp⟩

/-- Nor is one replaced across it. -/
theorem replaceFrom_append_cons {fromText toText b : List Char} {c : Char} (hne : fromText ≠ [])
    (hc : c ∉ fromText) : ∀ {a : List Char} {skip : ℕ}, skip ≤ a.length →
    replaceFrom fromText toText skip (a ++ c :: b) =
      replaceFrom fromText toText skip a ++ c :: replaceAll b fromText toText
  | [], skip, hskip => by
    obtain rfl : skip = 0 := Nat.le_zero.mp hskip
    obtain ⟨d, ds, rfl⟩ := List.exists_cons_of_ne_nil hne
    have hd : (d == c) = false := beq_false_of_ne fun he => hc (he ▸ List.mem_cons_self)
    rw [List.nil_append, replaceFrom, List.nil_append, replaceFrom, List.isPrefixOf_cons_cons, hd,
      Bool.false_and, if_neg Bool.false_ne_true, replaceAll]
  | x :: a, skip + 1, hskip => by
    rw [List.cons_append, replaceFrom, replaceFrom, replaceFrom_append_cons hne hc (Nat.le_of_succ_le_succ hskip)]
  | x :: a, 0, _ => by
    have hprefix : fromText.isPrefixOf (x :: a ++ c :: b) = fromText.isPrefixOf (x :: a) := by
      rw [Bool.eq_iff_iff, List.isPrefixOf_iff_prefix, List.isPrefixOf_iff_prefix]
      constructor
      · rintro ⟨t, ht⟩
        rcases List.append_eq_append_iff.mp ht with ⟨a', ha, -⟩ | ⟨c', hfrom, hrest⟩
        · exact ⟨a', ha.symm⟩
        · rcases c' with _ | ⟨d, c'⟩
          · exact ⟨[], by rw [hfrom, List.append_nil, List.append_nil]⟩
          · rw [hfrom, ← (List.cons.inj hrest).1] at hc
            simp at hc
      · exact fun h => h.trans (List.prefix_append _ _)
    rw [List.cons_append] at hprefix ⊢
    rw [replaceFrom, replaceFrom, hprefix]
    by_cases h : fromText.isPrefixOf (x :: a) = true
    · have hlength := (List.isPrefixOf_iff_prefix.mp h).length_le
      rw [List.length_cons] at hlength
      rw [if_pos h, if_pos h, replaceFrom_append_cons hne hc (by omega), List.append_assoc]
    · rw [if_neg h, if_neg h, replaceFrom_append_cons hne hc (Nat.zero_le _), List.cons_append]

theorem replaceAll_append_cons {fromText toText : List Char} {c : Char} (hne : fromText ≠ [])
    (hc : c ∉ fromText) (a b : List Char) :
    replaceAll (a ++ c :: b) fromText toText =
      replaceAll a fromText toText ++ c :: replaceAll b fromText toText :=
  replaceFrom_append_cons hne hc (Nat.zero_le _)

/-- Without an occurrence nothing is replaced. -/
theorem replaceAll_of_not_isInfix {fromText toText : List Char} : ∀ {cs : List Char},
    ¬ fromText <:+: cs → replaceAll cs fromText toText = cs
  | [], _ => rfl
  | c :: cs, h => by
    have hprefix : ¬ fromText.isPrefixOf (c :: cs) = true := fun hp =>
      h (List.isPrefixOf_iff_prefix.mp hp).isInfix
    have hcs : ¬ fromText <:+: cs := fun hi => h (List.infix_cons hi)
    have ih := @replaceAll_of_not_isInfix fromText toText cs hcs
    rw [replaceAll] at ih ⊢
    rw [replaceFrom, if_neg hprefix, ih]

end Horo
