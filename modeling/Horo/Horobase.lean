/-
# The loops of `horobase`

`separateString` and `ReplaceAll` of `src/base/horobase.cc`, as the loops over
a stream and over positions that they are. The other modules use what they
come to, `Horo.separateString` and `Horo.replaceAll`.

* `separateLoop_eq`, `replaceAll_eq_of_scanned`: the loops come to these two.
* `separateString_segments`: the maximal stretches without the delimiter.
* `replaceAll_scanned`: one replacement from left to right.
-/
import Horo.Lib.Segment
import Horo.Lib.StdString
import Horo.Text

namespace Horo
namespace Horobase

open Lib

/-! ### `separateString` -/

/-- What the loop has left to do: a stream that is not good is not read. -/
def left (ss : StringStream Char) : ℕ := if ss.good then ss.rest.length + 1 else 0

/-- Each `getline` extracts a character, or sets a flag. -/
theorem left_getline_lt {ss : StringStream Char} (h : ss.good = true) (substr : List Char)
    (delimeter : Char) :
    left (ss.getline substr delimeter).2 < left ss := by
  have hlength : (ss.rest.dropWhile (· ≠ delimeter)).length ≤ ss.rest.length :=
    (List.dropWhile_suffix _).length_le
  rw [StringStream.getline, if_pos h, left, left, if_pos h]
  rcases hrest : ss.rest.dropWhile (· ≠ delimeter) with _ | ⟨c, rest⟩
  · simp [StringStream.good]
  · rw [hrest, List.length_cons] at hlength
    dsimp only
    split
    · exact Nat.succ_lt_succ hlength
    · exact Nat.succ_pos _

/-- `while( ss.good() )`. -/
def separateLoop (delimeter : Char) (ss : StringStream Char) (result : List (List Char)) :
    List (List Char) :=
  if _ : ss.good then
    let line := ss.getline [] delimeter
    separateLoop delimeter line.2 (if line.1.length ≠ 0 then result ++ [line.1] else result)
  else result
termination_by left ss
decreasing_by exact left_getline_lt ‹_› [] delimeter

def separateString (str : List Char) (delimeter : Char) : List (List Char) :=
  separateLoop delimeter (StringStream.ofString str) []

/-- **The loop collects the parts that are not empty.** -/
theorem separateLoop_eq (d : Char) (str : List Char) : ∀ result : List (List Char),
    separateLoop d (StringStream.ofString str) result = result ++ Horo.separateString str d := by
  induction str using delimeter_induction (d := d) with
  | @last part hpart =>
    intro result
    -- the flag that is set by the last line ends the loop
    have hend : ∀ result' : List (List Char),
        separateLoop d ⟨[], true, part.isEmpty⟩ result' = result' := by
      intro result'
      rw [separateLoop, dif_neg (by simp [StringStream.good])]
    rw [separateLoop, dif_pos (StringStream.good_ofString _), StringStream.getline_last hpart]
    simp only [hend]
    by_cases hne : part = []
    · rw [hne]
      simp [Horo.separateString, separateFrom]
    · rw [if_pos (by simpa using hne), separateString_last hpart hne]
  | @delimeter part rest hpart ih =>
    intro result
    rw [separateLoop, dif_pos (StringStream.good_ofString _), StringStream.getline_delimeter hpart]
    simp only [ih]
    by_cases hne : part = []
    · rw [hne, List.nil_append, separateString_delimeter]
      simp
    · rw [if_pos (by simpa using hne), separateString_append hpart hne, List.append_assoc]
      rfl

theorem separateString_eq_model (str : List Char) (d : Char) :
    separateString str d = Horo.separateString str d := separateLoop_eq d str []

/-- **All the non-empty maximal stretches without the delimiter**, in their
order and each one once. -/
theorem separateString_segments (str : List Char) (d : Char) :
    ∃ bounds : List (ℕ × ℕ), (bounds.Pairwise fun p q => p.2 < q.1) ∧
      (∀ start stop, (start, stop) ∈ bounds ↔ IsSegment d str start stop) ∧
      separateString str d = bounds.map fun p => str.extract p.1 p.2 := by
  obtain ⟨bounds, hbounds, hpieces⟩ := @splitOn_segments _ _ d str [] (.inl rfl)
  refine ⟨bounds, hbounds.ordered, fun start stop => ?_, ?_⟩
  · rw [hbounds.mem_iff]
    exact and_iff_right (Nat.zero_le _)
  · rw [separateString_eq_model, separateString_eq, hpieces]
    rfl

/-! ### `ReplaceAll` -/

/-- `while((start_pos = str.find(from, start_pos)) != npos)`, for at most
`fuel` tests of the condition. -/
def replaceLoop (fromText toText : List Char) : ℕ → List Char → ℕ → Option (List Char)
  | 0, _, _ => none
  | fuel + 1, str, start_pos =>
    match find str fromText start_pos with
    | none => some str
    | some start_pos =>
      let str := replace str start_pos fromText.length toText
      replaceLoop fromText toText fuel str (start_pos + toText.length)

def replaceAll (fuel : ℕ) (str fromText toText : List Char) : Option (List Char) :=
  replaceLoop fromText toText fuel str 0

/-- The string up to `start_pos` is not looked at again, and what is left of it
becomes shorter with each replacement. -/
theorem replaceLoop_scanned {fromText : List Char} (hne : fromText ≠ []) (toText : List Char) :
    ∀ (fuel : ℕ) {done rest : List Char}, rest.length < fuel →
    ∃ result, replaceLoop fromText toText fuel (done ++ rest) done.length = some (done ++ result) ∧
      Scanned fromText toText rest result
  | 0, _, _, hfuel => absurd hfuel (Nat.not_lt_zero _)
  | fuel + 1, done, rest, hfuel => by
    rw [replaceLoop, find_append]
    rcases hfind : firstOccurrence fromText rest with _ | i
    · exact ⟨rest, rfl, scanned_of_firstOccurrence_eq_none toText hfind⟩
    · obtain ⟨middle, rest', rfl, rfl, hscan⟩ := exists_of_firstOccurrence toText hfind
      have hpos := List.length_pos_of_ne_nil hne
      have hlt : rest'.length < fuel := by
        simp only [List.length_append] at hfuel
        omega
      obtain ⟨result, hloop, hresult⟩ := @replaceLoop_scanned _ hne toText fuel
        (done ++ (middle ++ toText)) _ hlt
      refine ⟨middle ++ (toText ++ result), ?_, hscan hresult⟩
      simp only [Option.map_some, replace_append]
      simpa [Nat.add_assoc] using hloop

/-- With fuel for each character and one more test the loop gives what the
scan gives. -/
theorem replaceAll_eq_of_scanned {str fromText toText result : List Char} (hne : fromText ≠ [])
    (h : Scanned fromText toText str result) {fuel : ℕ} (hfuel : str.length < fuel) :
    replaceAll fuel str fromText toText = some result := by
  obtain ⟨result', hloop, h'⟩ := @replaceLoop_scanned _ hne toText fuel [] _ hfuel
  have hall : replaceAll fuel str fromText toText = some result' := hloop
  rw [hall, h'.unique hne h]

theorem replaceFrom_drop (fromText toText : List Char) : ∀ (skip : ℕ) (cs : List Char),
    replaceFrom fromText toText skip cs = Horo.replaceAll (cs.drop skip) fromText toText
  | 0, _ => rfl
  | skip + 1, [] => rfl
  | skip + 1, _ :: cs => by
    rw [replaceFrom, replaceFrom_drop fromText toText skip cs, List.drop_succ_cons]

/-- So does the function that the other modules use. -/
theorem scanned_replaceAll {fromText : List Char} (hne : fromText ≠ []) (toText : List Char) :
    ∀ str : List Char, Scanned fromText toText str (Horo.replaceAll str fromText toText) := by
  intro str
  induction hlength : str.length using Nat.strongRecOn generalizing str with
  | ind length ih =>
    rcases str with _ | ⟨c, cs⟩
    · exact .nil
    · rw [Horo.replaceAll, replaceFrom]
      split
      · rename_i hprefix
        obtain ⟨rest, hrest⟩ := List.isPrefixOf_iff_prefix.mp hprefix
        have hdrop : cs.drop (fromText.length - 1) = rest := by
          have hcons : (c :: cs).drop fromText.length = rest := by rw [← hrest, List.drop_left]
          rwa [← Nat.succ_pred_eq_of_pos (List.length_pos_of_ne_nil hne), List.drop_succ_cons] at hcons
        have hlt : rest.length < length := by
          have hpos := List.length_pos_of_ne_nil hne
          rw [← hlength, ← hrest, List.length_append]
          omega
        rw [replaceFrom_drop, hdrop, ← hrest]
        exact (ih rest.length hlt rest rfl).replaced
      · rename_i hprefix
        have hlt : cs.length < length := hlength ▸ Nat.lt_succ_self _
        exact .kept (fun hp => hprefix (List.isPrefixOf_iff_prefix.mpr hp)) (ih cs.length hlt cs rfl)

/-- **The loop ends, and has scanned the text once from left to right**: that
scan has one result, and the loop gives it. -/
theorem replaceAll_scanned (str fromText toText : List Char) (hne : fromText ≠ []) :
    ∃ result, Scanned fromText toText str result ∧
      (∀ result', Scanned fromText toText str result' → result' = result) ∧
      ∀ fuel, str.length < fuel → replaceAll fuel str fromText toText = some result :=
  ⟨_, scanned_replaceAll hne toText str, fun _ h' => h'.unique hne (scanned_replaceAll hne toText str),
    fun _ hfuel => replaceAll_eq_of_scanned hne (scanned_replaceAll hne toText str) hfuel⟩

/-- Two blanks become one, and a blank that is left is not looked at again. -/
theorem replaceAll_blanks : ∃ result, Scanned [' ', ' '] [' '] [' ', ' ', ' ', 'a'] result ∧
    (∀ result', Scanned [' ', ' '] [' '] [' ', ' ', ' ', 'a'] result' → result' = result) ∧
    ∀ fuel, 4 < fuel → replaceAll fuel [' ', ' ', ' ', 'a'] [' ', ' '] [' '] = some result :=
  replaceAll_scanned [' ', ' ', ' ', 'a'] [' ', ' '] [' '] (List.cons_ne_nil _ _)

/-- For an empty `from` the loop does not end: it finds one at `start_pos`,
behind each text that it has put in. -/
theorem replaceLoop_nil (toText : List Char) : ∀ (fuel : ℕ) {str : List Char} {start_pos : ℕ},
    start_pos ≤ str.length → replaceLoop [] toText fuel str start_pos = none
  | 0, _, _, _ => rfl
  | fuel + 1, str, start_pos, h => by
    have hfind : find str [] start_pos = some start_pos := by
      rw [find, if_pos h]
      rcases str.drop start_pos with _ | ⟨c, cs⟩ <;> rfl
    have hlength : start_pos + toText.length ≤ (replace str start_pos 0 toText).length := by
      simp only [replace, List.length_append, List.length_take, List.length_drop]
      omega
    rw [replaceLoop, hfind]
    exact replaceLoop_nil toText fuel hlength

end Horobase
end Horo
