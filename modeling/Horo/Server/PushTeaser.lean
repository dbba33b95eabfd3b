/-
# The text of a push

`src/server/pusher/pushsender.js`: the prediction is cut after some words, and
sent with three dots. A string is the list of its UTF-16 code units here.

Key definitions: `sendPushRequest`, `CutAtWord`.
Key theorems: `reached_advanceFrom`, `cutAtWord_iff`.
-/
import Horo.Server.PushSender

namespace Horo
namespace Server
namespace PushTeaser

/-! ### The program -/

/-- `kNumberOfSpacesCountFromEndOfDateBeforeLastWordInPushMessage`. -/
def numberOfSpaces : ℕ := 5

/-- `kNumberOfCharsWithDateInStartOfPushText`. -/
def numberOfChars : ℕ := 18

/-- The code units of a text of ASCII. -/
def unitsOf (s : String) : List UInt16 := s.toList.map fun c => UInt16.ofNat c.toNat

def space : UInt16 := 32

def dots : List UInt16 := unitsOf "..."

/-- `text.indexOf(' ', start)`; `none` for -1. -/
def indexOfSpace (text : List UInt16) (start : ℕ) : Option ℕ :=
  ((text.drop start).idxOf? space).map (· + start)

/-- The body of the loop: -1 is below every index. -/
def advance (text : List UInt16) (currentIndex : ℕ) : ℕ :=
  match indexOfSpace text currentIndex with
  | some newIndex => if currentIndex ≤ newIndex then newIndex + 1 else currentIndex
  | none => currentIndex

/-- The loop, with the iterations that are left. -/
def advanceFrom (text : List UInt16) : ℕ → ℕ → ℕ
  | 0, currentIndex => currentIndex
  | left + 1, currentIndex => advanceFrom text left (advance text currentIndex)

/-- The letters of the names are those of ASCII. -/
def capitalizeFirstLetter (string : String) : String :=
  match string.toList with
  | [] => ""
  | c :: cs => String.ofList (c.toUpper :: cs)

/-- `data`. -/
structure Payload where
  interests : List String
  title : String
  body : List UInt16
  sound : String
  badge : ℕ
  zodiacName : String
  deriving DecidableEq, Repr

def sendPushRequest (roomname zodiacName : String) (text : List UInt16) : Payload :=
  let currentIndex := advanceFrom text (numberOfSpaces + 1) numberOfChars
  { interests := [roomname]
    title := capitalizeFirstLetter zodiacName
    body := text.take (currentIndex - 1) ++ dots
    sound := "default"
    badge := 1
    zodiacName := zodiacName }

/-- The body is a beginning of the text that ends with a word, and has no more
than the given spaces after the date; and the dots. -/
def CutAtWord (roomname zodiacName : String) (text : List UInt16) : Prop :=
  ∃ p, (sendPushRequest roomname zodiacName text).body = p ++ dots ∧ p <+: text ∧
    (p = text ∨ text[p.length]? = some space) ∧ (p.drop numberOfChars).count space ≤ numberOfSpaces

/-! ### The loop -/

/-- The spaces after the date, before a position. -/
def spacesBefore (text : List UInt16) (i : ℕ) : ℕ := ((text.take i).drop numberOfChars).count space

theorem indexOfSpace_eq_some {text : List UInt16} {start j : ℕ} (h : indexOfSpace text start = some j) :
    start ≤ j ∧ text[j]? = some space ∧
      (numberOfChars ≤ start → spacesBefore text j = spacesBefore text start) := by
  obtain ⟨k, hk, rfl⟩ := Option.map_eq_some_iff.mp h
  obtain ⟨hlt, hspace, hbefore⟩ := List.idxOf?_eq_some_iff.mp hk
  rw [List.length_drop] at hlt
  rw [List.getElem_drop] at hspace
  refine ⟨Nat.le_add_left _ _, ?_, fun hstart => ?_⟩
  · rw [Nat.add_comm, List.getElem?_eq_getElem (by omega), hspace]
  · have hnone : space ∉ (text.drop start).take k := by
      intro hmem
      obtain ⟨i, hi, he⟩ := List.mem_iff_getElem.mp hmem
      rw [List.length_take] at hi
      rw [List.getElem_take] at he
      exact hbefore i (by omega) he
    have hlength : numberOfChars ≤ (text.take start).length := by
      rw [List.length_take]
      omega
    rw [spacesBefore, Nat.add_comm, List.take_add, List.drop_append_of_le_length hlength, List.count_append,
      List.count_eq_zero.mpr hnone, Nat.add_zero, spacesBefore]

theorem indexOfSpace_eq_none {text : List UInt16} {start : ℕ} :
    indexOfSpace text start = none ↔ space ∉ text.drop start := by
  rw [indexOfSpace, Option.map_eq_none_iff, List.idxOf?_eq_none_iff]

theorem advance_of_some {text : List UInt16} {i j : ℕ} (h : indexOfSpace text i = some j) :
    advance text i = j + 1 := by
  rw [advance, h]
  exact if_pos (indexOfSpace_eq_some h).1

theorem advance_of_none {text : List UInt16} {i : ℕ} (h : indexOfSpace text i = none) :
    advance text i = i := by
  rw [advance, h]

/-- After `k` iterations: no space has been found after the date, or the index
is right after a space before which are less than `k` spaces. -/
def Reached (text : List UInt16) (k i : ℕ) : Prop :=
  i = numberOfChars ∧ (k = 0 ∨ space ∉ text.drop numberOfChars) ∨
    ∃ j, i = j + 1 ∧ numberOfChars ≤ j ∧ text[j]? = some space ∧ spacesBefore text j < k

/-- One more space is before the index than before the space. -/
theorem spacesBefore_succ {text : List UInt16} {j : ℕ} (hj : numberOfChars ≤ j)
    (hspace : text[j]? = some space) : spacesBefore text (j + 1) = spacesBefore text j + 1 := by
  obtain ⟨hlt, he⟩ := List.getElem?_eq_some_iff.mp hspace
  have hlength : numberOfChars ≤ (text.take j).length := by
    rw [List.length_take]
    omega
  rw [spacesBefore, List.take_succ_eq_append_getElem hlt, List.drop_append_of_le_length hlength,
    List.count_append, he, spacesBefore]
  rfl

/-- **An iteration reaches the next space**, or leaves the index where it is. -/
theorem reached_advance {text : List UInt16} {k i : ℕ} (h : Reached text k i) :
    Reached text (k + 1) (advance text i) := by
  rcases h with ⟨rfl, -⟩ | ⟨j, rfl, hj, hspace, hcount⟩
  · rcases hindex : indexOfSpace text numberOfChars with _ | j
    · rw [advance_of_none hindex]
      exact .inl ⟨rfl, .inr (indexOfSpace_eq_none.mp hindex)⟩
    · obtain ⟨hle, hspace, hbefore⟩ := indexOfSpace_eq_some hindex
      have hzero : spacesBefore text numberOfChars = 0 := by
        rw [spacesBefore, List.drop_eq_nil_of_le (by rw [List.length_take]; exact Nat.min_le_left _ _),
          List.count_nil]
      rw [advance_of_some hindex]
      refine .inr ⟨j, rfl, hle, hspace, ?_⟩
      rw [hbefore (Nat.le_refl _), hzero]
      exact Nat.succ_pos k
  · rcases hindex : indexOfSpace text (j + 1) with _ | j'
    · rw [advance_of_none hindex]
      exact .inr ⟨j, rfl, hj, hspace, Nat.lt_succ_of_lt hcount⟩
    · obtain ⟨hle, hspace', hbefore⟩ := indexOfSpace_eq_some hindex
      rw [advance_of_some hindex]
      refine .inr ⟨j', rfl, by omega, hspace', ?_⟩
      rw [hbefore (by omega), spacesBefore_succ hj hspace]
      exact Nat.succ_lt_succ hcount

theorem reached_advanceFrom {text : List UInt16} : ∀ {left k i : ℕ}, Reached text k i →
    Reached text (k + left) (advanceFrom text left i)
  | 0, _, _, h => h
  | left + 1, k, i, h => by
    have hnext := @reached_advanceFrom text left (k + 1) (advance text i) (reached_advance h)
    rw [Nat.add_assoc, Nat.add_comm 1 left] at hnext
    exact hnext

/-! ### The theorem -/

/-- **The teaser is cut at a word boundary if and only if** the text has a
space after the date, or is shorter than the date, or has a space where the
date ends. -/
theorem cutAtWord_iff (roomname zodiacName : String) (text : List UInt16) :
    CutAtWord roomname zodiacName text ↔ space ∈ text.drop numberOfChars ∨
      text.length < numberOfChars ∨ text[numberOfChars - 1]? = some space := by
  have hreached := @reached_advanceFrom text (numberOfSpaces + 1) 0 numberOfChars (.inl ⟨rfl, .inl rfl⟩)
  unfold CutAtWord sendPushRequest
  simp only
  generalize advanceFrom text (numberOfSpaces + 1) numberOfChars = i at hreached
  rcases hreached with ⟨rfl, hnone⟩ | ⟨j, rfl, hj, hspace, hcount⟩
  · have hnot : space ∉ text.drop numberOfChars := hnone.resolve_left (by decide)
    rw [or_iff_right hnot]
    constructor
    · rintro ⟨p, hbody, -, hend, -⟩
      obtain rfl := List.append_cancel_right hbody
      rcases hend with hall | hspace
      · left
        have hlength := congrArg List.length hall
        rw [List.length_take] at hlength
        simp only [numberOfChars] at hlength ⊢
        omega
      · by_cases hlt : text.length < numberOfChars
        · exact .inl hlt
        · rw [List.length_take, Nat.min_eq_left (by omega)] at hspace
          exact .inr hspace
    · intro hend
      refine ⟨text.take (numberOfChars - 1), rfl, List.take_prefix _ _, ?_, ?_⟩
      · by_cases hlt : text.length < numberOfChars
        · exact .inl (List.take_of_length_le (by omega))
        · rw [List.length_take, Nat.min_eq_left (by omega)]
          exact .inr (hend.resolve_left hlt)
      · rw [List.drop_eq_nil_of_le]
        · exact Nat.zero_le _
        · rw [List.length_take]
          omega
  · obtain ⟨hlt, he⟩ := List.getElem?_eq_some_iff.mp hspace
    refine iff_of_true ⟨text.take j, rfl, List.take_prefix _ _, ?_, ?_⟩ (.inl ?_)
    · rw [List.length_take, Nat.min_eq_left (by omega)]
      exact .inr hspace
    · rw [Nat.zero_add] at hcount
      exact Nat.le_of_lt_succ hcount
    · rw [List.mem_iff_getElem]
      refine ⟨j - numberOfChars, by rw [List.length_drop]; omega, ?_⟩
      rw [List.getElem_drop]
      simpa only [Nat.add_sub_cancel' hj] using he

/-- A text of one long word is cut inside it. -/
theorem long_word_is_cut : (sendPushRequest "leo7" "leo" (unitsOf "Thequickbrownfoxjumps")).body =
      unitsOf "Thequickbrownfoxj..." ∧ ¬ CutAtWord "leo7" "leo" (unitsOf "Thequickbrownfoxjumps") := by
  have hbody : (sendPushRequest "leo7" "leo" (unitsOf "Thequickbrownfoxjumps")).body =
      unitsOf "Thequickbrownfoxj" ++ dots := by decide
  refine ⟨by decide, fun ⟨p, hp, _, hend, _⟩ => ?_⟩
  obtain rfl := List.append_cancel_right (hbody.symm.trans hp)
  exact absurd hend (by decide)

end PushTeaser
end Server
end Horo
