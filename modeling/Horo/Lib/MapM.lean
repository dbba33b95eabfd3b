/-
# Lists under a function that can fail

`mapM_eq_ite`: a list is mapped if there is a result for every element, and
then to all the results.
-/
import Mathlib.Data.List.Basic

namespace Horo
namespace Lib

variable {α β γ : Type*}

theorem mapM_eq_ite (f : α → Option β) : ∀ l : List α,
    l.mapM f = if ∀ a ∈ l, (f a).isSome = true then some (l.filterMap f) else none
  | [] => by simp
  | a :: l => by
    rw [List.mapM_cons, mapM_eq_ite f l]
    rcases hf : f a with _ | b
    · simp [hf]
    · rw [List.filterMap_cons_some hf]
      by_cases hall : ∀ a ∈ l, (f a).isSome = true
      · rw [if_pos hall, if_pos (List.forall_mem_cons.mpr ⟨by rw [hf]; rfl, hall⟩)]
        rfl
      · rw [if_neg hall, if_neg fun h => hall (List.forall_mem_cons.mp h).2]
        rfl

/-- What a list is mapped to. -/
theorem mem_of_mapM {f : α → Option β} {l : List α} {bs : List β} (h : l.mapM f = some bs) (b : β) :
    b ∈ bs ↔ ∃ a ∈ l, f a = some b := by
  rw [mapM_eq_ite] at h
  split at h
  · rw [← Option.some.inj h]
    exact List.mem_filterMap
  · cases h

theorem exists_mapM_iff {f : α → Option β} {l : List α} :
    (∃ bs, l.mapM f = some bs) ↔ ∀ a ∈ l, ∃ b, f a = some b := by
  simp only [mapM_eq_ite, ← Option.isSome_iff_exists]
  split
  · rename_i hall
    simpa using hall
  · rename_i hall
    simpa using hall

theorem mapM_eq_some {f : α → Option β} {g : α → β} {l : List α} (h : ∀ a ∈ l, f a = some (g a)) :
    l.mapM f = some (l.map g) := by
  have hall : ∀ a ∈ l, (f a).isSome = true := by
    intro a ha
    rw [h a ha]
    rfl
  have hmap : l.filterMap f = l.map g := by
    rw [List.filterMap_congr h]
    exact congrFun List.filterMap_eq_map l
  rw [mapM_eq_ite, if_pos hall, hmap]

theorem mapM_map (f : α → Option β) (g : β → γ) : ∀ l : List α,
    (l.mapM fun a => (f a).map g) = (l.mapM f).map (List.map g)
  | [] => rfl
  | a :: l => by
    rw [List.mapM_cons, List.mapM_cons, mapM_map f g l]
    rcases f a with _ | b
    · rfl
    · rcases l.mapM f with _ | bs <;> rfl

end Lib
end Horo
