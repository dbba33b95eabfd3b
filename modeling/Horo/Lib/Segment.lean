/-
# The segments between delimiters

What `splitOn` gives of a list, by its positions: the non-empty pieces are the
maximal stretches without the delimiter, from left to right.

* `isSegment_of_delimeted`: a piece between two delimiters is a segment.
* `IsSegment.first_or_behind`: a segment from some position on is the piece
  that starts there, or stands behind it.
* `splitOn_segments`: the non-empty pieces are all the segments, each one once.
-/
import Mathlib.Data.List.Basic

namespace Horo
namespace Lib

variable {α : Type*}

/-- No delimiter stands at a position from `start` to before `stop`. -/
def Undelimeted (d : α) (str : List α) (start stop : ℕ) : Prop :=
  ∀ i, start ≤ i → i < stop → str[i]? ≠ some d

/-- A stretch without the delimiter that is not empty, and that no longer one
contains. -/
structure IsSegment (d : α) (str : List α) (start stop : ℕ) : Prop where
  start_lt : start < stop
  stop_le : stop ≤ str.length
  undelimeted : Undelimeted d str start stop
  maximal : ∀ start' stop', start' ≤ start → stop ≤ stop' → stop' ≤ str.length →
    Undelimeted d str start' stop' → start' = start ∧ stop' = stop

variable {d : α} {front part back str : List α}

theorem getElem?_delimeter (front part rest : List α) (d : α) :
    (front ++ (part ++ d :: rest))[front.length + part.length]? = some d := by
  rw [List.getElem?_append_right (Nat.le_add_right _ _), Nat.add_sub_cancel_left,
    List.getElem?_append_right (Nat.le_refl _), Nat.sub_self]
  rfl

theorem undelimeted_part (hpart : d ∉ part) (front back : List α) :
    Undelimeted d (front ++ (part ++ back)) front.length (front.length + part.length) := by
  intro i hstart hstop hi
  rw [List.getElem?_append_right hstart, List.getElem?_append_left (by omega)] at hi
  exact hpart (List.mem_of_getElem? hi)

/-- **A piece between two delimiters is a segment**, and so is one with which
the list starts or ends. -/
theorem isSegment_of_delimeted (hne : part ≠ []) (hpart : d ∉ part)
    (hfront : front = [] ∨ ∃ rest, front = rest ++ [d]) (hback : back = [] ∨ ∃ rest, back = d :: rest) :
    IsSegment d (front ++ (part ++ back)) front.length (front.length + part.length) where
  start_lt := Nat.lt_add_of_pos_right (List.length_pos_of_ne_nil hne)
  stop_le := by simp only [List.length_append]; omega
  undelimeted := undelimeted_part hpart front back
  maximal := by
    intro start' stop' hstart hstop hlength hplain
    constructor
    · rcases hfront with rfl | ⟨rest, rfl⟩
      · exact Nat.le_zero.mp hstart
      · by_contra hne'
        simp only [List.length_append, List.length_singleton] at hstart hstop hne'
        have hlt : rest.length < stop' := by omega
        have hle : start' ≤ rest.length := by omega
        exact hplain rest.length hle hlt (by simp)
    · rcases hback with rfl | ⟨rest, rfl⟩
      · simp only [List.length_append, List.append_nil] at hlength
        omega
      · by_contra hne'
        exact hplain (front.length + part.length) (by omega) (by omega)
          (getElem?_delimeter front part rest d)

/-- **A segment from some position on** is the piece that starts there, or
stands behind that piece. -/
theorem IsSegment.first_or_behind (hpart : d ∉ part) (hback : back = [] ∨ ∃ rest, back = d :: rest)
    {start stop : ℕ} (h : IsSegment d (front ++ (part ++ back)) start stop)
    (hstart : front.length ≤ start) :
    (part ≠ [] ∧ start = front.length ∧ stop = front.length + part.length) ∨
      front.length + part.length < start := by
  by_cases hbehind : front.length + part.length < start
  · exact .inr hbehind
  · have hstop : stop ≤ front.length + part.length := by
      rcases hback with rfl | ⟨rest, rfl⟩
      · simpa using h.stop_le
      · by_contra hlt
        exact h.undelimeted (front.length + part.length) (by omega) (by omega)
          (getElem?_delimeter front part rest d)
    have hne : part ≠ [] := by
      rintro rfl
      have := h.start_lt
      simp only [List.length_nil] at hstop
      omega
    have hmax := h.maximal front.length (front.length + part.length) hstart hstop
      (by simp only [List.length_append]; omega) (undelimeted_part hpart front back)
    exact .inl ⟨hne, hmax.1.symm, hmax.2.symm⟩

/-! ### The pieces of `splitOn` -/

/-- A list is a piece without the delimiter, or one with the delimiter and
another list behind it. -/
theorem delimeter_induction [DecidableEq α] {P : List α → Prop}
    (last : ∀ {part : List α}, d ∉ part → P part)
    (delimeter : ∀ {part rest : List α}, d ∉ part → P rest → P (part ++ d :: rest)) :
    ∀ str : List α, P str := by
  intro str
  induction hlength : str.length using Nat.strongRecOn generalizing str with
  | ind length ih =>
    by_cases h : d ∈ str
    · obtain ⟨part, rest, rfl, hpart⟩ := List.eq_append_cons_of_mem h
      have hlt : rest.length < length := by
        rw [← hlength, List.length_append, List.length_cons]
        omega
      exact delimeter hpart (ih rest.length hlt rest rfl)
    · exact last h

/-- All the segments from a position on, from left to right. -/
structure SegmentsFrom (d : α) (str : List α) (pos : ℕ) (bounds : List (ℕ × ℕ)) : Prop where
  ordered : bounds.Pairwise fun p q => p.2 < q.1
  mem_iff : ∀ start stop, (start, stop) ∈ bounds ↔ pos ≤ start ∧ IsSegment d str start stop

/-- The piece at the position, if it is not empty, comes before the segments
behind it. -/
theorem SegmentsFrom.add_part {bounds : List (ℕ × ℕ)} (hpart : d ∉ part)
    (hfront : front = [] ∨ ∃ rest, front = rest ++ [d]) (hback : back = [] ∨ ∃ rest, back = d :: rest)
    (h : SegmentsFrom d (front ++ (part ++ back)) (front.length + part.length + 1) bounds) :
    SegmentsFrom d (front ++ (part ++ back)) front.length
      (if part = [] then bounds else (front.length, front.length + part.length) :: bounds) := by
  have hbehind : ∀ start stop, (start, stop) ∈ bounds → front.length + part.length < start :=
    fun start stop hmem => ((h.mem_iff start stop).mp hmem).1
  have hsplit : ∀ start stop, front.length ≤ start ∧ IsSegment d (front ++ (part ++ back)) start stop ↔
      (part ≠ [] ∧ start = front.length ∧ stop = front.length + part.length) ∨ (start, stop) ∈ bounds := by
    intro start stop
    rw [h.mem_iff]
    constructor
    · rintro ⟨hstart, hseg⟩
      exact (hseg.first_or_behind hpart hback hstart).imp_right fun hlt => ⟨hlt, hseg⟩
    · rintro (⟨hne, rfl, rfl⟩ | ⟨hlt, hseg⟩)
      · exact ⟨Nat.le_refl _, isSegment_of_delimeted hne hpart hfront hback⟩
      · exact ⟨by omega, hseg⟩
  by_cases hne : part = []
  · rw [if_pos hne]
    refine ⟨h.ordered, fun start stop => ?_⟩
    rw [hsplit]
    exact ⟨.inr, fun hmem => hmem.resolve_left fun hfirst => hfirst.1 hne⟩
  · rw [if_neg hne]
    refine ⟨List.pairwise_cons.mpr ⟨fun p hp => hbehind p.1 p.2 hp, h.ordered⟩, fun start stop => ?_⟩
    rw [hsplit, List.mem_cons, Prod.mk.injEq]
    exact or_congr_left (and_iff_right hne).symm

/-- **The non-empty pieces are all the segments, each one once**, from left to
right. -/
theorem splitOn_segments [DecidableEq α] (d : α) (str : List α) : ∀ {front : List α},
    (front = [] ∨ ∃ rest, front = rest ++ [d]) → ∃ bounds,
      SegmentsFrom d (front ++ str) front.length bounds ∧
      (str.splitOn d).filter (· ≠ []) = bounds.map fun p => (front ++ str).extract p.1 p.2 := by
  induction str using delimeter_induction (d := d) with
  | @last part hpart =>
    intro front hfront
    have hnone : SegmentsFrom d (front ++ (part ++ [])) (front.length + part.length + 1) [] := by
      refine ⟨List.Pairwise.nil, fun start stop => ⟨fun hmem => absurd hmem List.not_mem_nil, ?_⟩⟩
      rintro ⟨hstart, hseg⟩
      have hlt := hseg.start_lt
      have hle := hseg.stop_le
      rw [List.append_nil, List.length_append] at hle
      omega
    have hadd := hnone.add_part hpart hfront (.inl rfl)
    rw [List.append_nil] at hadd
    refine ⟨_, hadd, ?_⟩
    rw [List.splitOn_eq_singleton hpart, List.filter_singleton]
    by_cases hne : part = []
    · simp [hne]
    · simp [hne]
  | @delimeter part rest hpart ih =>
    intro front hfront
    have hstr : front ++ (part ++ [d]) ++ rest = front ++ (part ++ d :: rest) := by simp
    obtain ⟨bounds, hbounds, hrest⟩ := @ih (front ++ (part ++ [d])) (.inr ⟨front ++ part, by simp⟩)
    have hlength : (front ++ (part ++ [d])).length = front.length + part.length + 1 := by
      simp [Nat.add_assoc]
    rw [hstr] at hbounds hrest
    rw [hlength] at hbounds
    refine ⟨_, hbounds.add_part hpart hfront (.inr ⟨rest, rfl⟩), ?_⟩
    rw [List.splitOn_append_cons_self_of_not_mem hpart, List.filter_cons, hrest]
    by_cases hne : part = []
    · simp [hne]
    · simp [hne]

end Lib
end Horo
