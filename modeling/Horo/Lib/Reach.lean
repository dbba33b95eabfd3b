/-
# Event systems and the states their runs reach

A system has initial states, a predicate saying which events a state admits,
and a step. `Reach ok` holds of the states reached by admitted events that
all satisfy `ok`: with `ok` the whole of the events it is reachability, with a
smaller `ok` it is reachability along the runs that avoid some branch.

* `Reach.inv`: what holds initially and is kept by every `ok` step holds in
  every state `Reach ok` reaches.
* `Run.length_le`: a run on which something gets less with each step.
* `forall_prefix_iff_run`: what each step keeps exactly if it satisfies `ok`
  holds all along a run exactly if every step of it satisfies `ok`.
* `run_of_not_broken`: where a step that is not `ok` breaks something for good,
  what is not broken has been reached by `ok` steps.
* `ReachFrom.exec`: an explicit list of admitted events reaches the state it
  executes to, so a run can be evaluated.
-/
import Mathlib.Data.Nat.Notation
import Mathlib.Logic.Relation

namespace Horo
namespace Lib

/-- A system that moves by events. -/
structure EventSystem (σ ε : Type*) where
  /-- The states a run starts from. -/
  init : σ → Prop
  /-- The events a state admits. -/
  admits : σ → ε → Prop
  /-- What an event does. -/
  step : σ → ε → σ

namespace EventSystem

variable {σ ε : Type*} (M : EventSystem σ ε)

/-- The states reached from `s` by admitted events that all satisfy `ok`. -/
inductive ReachFrom (ok : σ → ε → Prop) (s : σ) : σ → Prop
  | refl : ReachFrom ok s s
  | step {t : σ} (e : ε) : ReachFrom ok s t → M.admits t e → ok t e → ReachFrom ok s (M.step t e)

/-- The states reached from an initial state by events that satisfy `ok`. -/
def Reach (ok : σ → ε → Prop) (t : σ) : Prop := ∃ s, M.init s ∧ M.ReachFrom ok s t

/-- Every event counts. -/
def anyEvent : σ → ε → Prop := fun _ _ => True

instance (s : σ) (e : ε) : Decidable (anyEvent s e) := inferInstanceAs (Decidable True)

variable {M}

theorem ReachFrom.trans {ok : σ → ε → Prop} {s t u : σ} (h : M.ReachFrom ok s t)
    (h' : M.ReachFrom ok t u) : M.ReachFrom ok s u := by
  induction h' with
  | refl => exact h
  | step e _ ha hok ih => exact ih.step e ha hok

/-- What `s` satisfies and every `ok` step keeps holds of all that `s` reaches. -/
theorem ReachFrom.inv {ok : σ → ε → Prop} {P : σ → Prop} {s t : σ} (h : M.ReachFrom ok s t)
    (h0 : P s) (hstep : ∀ u e, P u → M.admits u e → ok u e → P (M.step u e)) : P t := by
  induction h with
  | refl => exact h0
  | step e _ ha hok ih => exact hstep _ e ih ha hok

/-- The invariant rule. -/
theorem Reach.inv {ok : σ → ε → Prop} {P : σ → Prop} {t : σ} (h : M.Reach ok t)
    (h0 : ∀ s, M.init s → P s)
    (hstep : ∀ u e, P u → M.admits u e → ok u e → P (M.step u e)) : P t := by
  obtain ⟨s, hs, hr⟩ := h
  exact hr.inv (h0 s hs) hstep

variable (M)

/-- The state a list of events leads to. -/
def exec (s : σ) (es : List ε) : σ := es.foldl M.step s

/-- Every event of the list is admitted, and satisfies `ok`, where it is taken. -/
def Run (ok : σ → ε → Prop) : σ → List ε → Prop
  | _, [] => True
  | s, e :: es => (M.admits s e ∧ ok s e) ∧ Run ok (M.step s e) es

instance decidableRun (ok : σ → ε → Prop) [∀ s e, Decidable (M.admits s e)]
    [∀ s e, Decidable (ok s e)] : ∀ s es, Decidable (M.Run ok s es)
  | _, [] => inferInstanceAs (Decidable True)
  | s, e :: es => @instDecidableAnd _ _ _ (decidableRun ok (M.step s e) es)

variable {M}

@[simp] theorem exec_nil (s : σ) : M.exec s [] = s := rfl

@[simp] theorem exec_cons (s : σ) (e : ε) (es : List ε) :
    M.exec s (e :: es) = M.exec (M.step s e) es := rfl

theorem exec_append (s : σ) (es es' : List ε) :
    M.exec s (es ++ es') = M.exec (M.exec s es) es' := List.foldl_append

/-- A run is a run of its parts. -/
theorem run_append {ok : σ → ε → Prop} {es es' : List ε} : ∀ {s : σ},
    M.Run ok s (es ++ es') ↔ M.Run ok s es ∧ M.Run ok (M.exec s es) es' := by
  induction es with
  | nil => exact ⟨fun h => ⟨trivial, h⟩, fun h => h.2⟩
  | cons e es ih => exact ⟨fun h => ⟨⟨h.1, (ih.mp h.2).1⟩, (ih.mp h.2).2⟩,
      fun h => ⟨h.1.1, ih.mpr ⟨h.1.2, h.2⟩⟩⟩

/-- A list of admitted events reaches the state it executes to. -/
theorem ReachFrom.exec {ok : σ → ε → Prop} : ∀ (es : List ε) (s : σ), M.Run ok s es →
    M.ReachFrom ok s (M.exec s es)
  | [], _, _ => .refl
  | e :: es, _, h => (ReachFrom.refl.step e h.1.1 h.1.2).trans (ReachFrom.exec es _ h.2)

/-- Every event counts where only some do. -/
theorem Run.any {ok : σ → ε → Prop} : ∀ {es : List ε} {s : σ}, M.Run ok s es → M.Run anyEvent s es
  | [], _, _ => trivial
  | _ :: _, _, h => ⟨⟨h.1.1, trivial⟩, h.2.any⟩

/-- What the steps of a run keep holds where it leads. -/
theorem Run.inv {ok : σ → ε → Prop} {P : σ → Prop} {s : σ} {es : List ε} (h : M.Run ok s es)
    (h0 : P s) (hstep : ∀ u e, P u → M.admits u e → ok u e → P (M.step u e)) : P (M.exec s es) :=
  (ReachFrom.exec es s h).inv h0 hstep

/-- A run on which each step takes something away is no longer than what there
is to take. -/
theorem Run.length_le {ok : σ → ε → Prop} {f : σ → ℕ}
    (hstep : ∀ u e, M.admits u e → ok u e → f (M.step u e) < f u) : ∀ {es : List ε} {s : σ},
    M.Run ok s es → es.length ≤ f s
  | [], _, _ => Nat.zero_le _
  | e :: es, s, h => by
    have hlt := hstep s e h.1.1 h.1.2
    have hle := Run.length_le hstep h.2
    rw [List.length_cons]
    omega

/-- When a step that is not `ok` breaks something for good, a run that has not
broken it took `ok` steps only. -/
theorem run_of_not_broken {Inv Broken : σ → Prop} {ok : σ → ε → Prop}
    (hinv : ∀ s e, Inv s → M.admits s e → Inv (M.step s e))
    (hbreak : ∀ s e, Inv s → M.admits s e → ¬ ok s e → Broken (M.step s e))
    (hkeep : ∀ s e, Inv s → M.admits s e → Broken s → Broken (M.step s e)) {es : List ε} :
    ∀ {s : σ}, Inv s → M.Run anyEvent s es → ¬ Broken (M.exec s es) → M.Run ok s es := by
  have hforever : ∀ (es : List ε) (s : σ), Inv s → M.Run anyEvent s es → Broken s →
      Broken (M.exec s es) := by
    intro es
    induction es with
    | nil => exact fun _ _ _ h => h
    | cons e es ih =>
      exact fun s hi hr h => ih _ (hinv s e hi hr.1.1) hr.2 (hkeep s e hi hr.1.1 h)
  induction es with
  | nil => exact fun _ _ _ => trivial
  | cons e es ih =>
    intro s hi hr hend
    have hi' := hinv s e hi hr.1.1
    have hok : ok s e := Classical.byContradiction fun hnot =>
      hend (hforever es _ hi' hr.2 (hbreak s e hi hr.1.1 hnot))
    exact ⟨⟨hr.1.1, hok⟩, ih hi' hr.2 hend⟩

/-- When a step keeps `P` exactly if it satisfies `ok`, all states along a run
satisfy `P` exactly if all its steps satisfy `ok`. -/
theorem forall_prefix_iff_run {Inv P : σ → Prop} {ok : σ → ε → Prop}
    (hinv : ∀ s e, Inv s → M.admits s e → Inv (M.step s e))
    (hstep : ∀ s e, Inv s → P s → M.admits s e → (P (M.step s e) ↔ ok s e)) {es : List ε} :
    ∀ {s : σ}, Inv s → P s → M.Run anyEvent s es →
      ((∀ es', es' <+: es → P (M.exec s es')) ↔ M.Run ok s es) := by
  induction es with
  | nil =>
    intro s _ hP _
    refine ⟨fun _ => trivial, fun _ es' h => ?_⟩
    rw [List.prefix_nil.mp h]
    exact hP
  | cons e es ih =>
    intro s hi hP ⟨⟨ha, _⟩, hrest⟩
    constructor
    · intro h
      have hP' : P (M.step s e) := h [e] (List.cons_prefix_cons.mpr ⟨rfl, List.nil_prefix⟩)
      have hrun := (ih (hinv s e hi ha) hP' hrest).mp fun es' hes' =>
        h (e :: es') (List.cons_prefix_cons.mpr ⟨rfl, hes'⟩)
      exact ⟨⟨ha, (hstep s e hi hP ha).mp hP'⟩, hrun⟩
    · rintro ⟨⟨_, hok⟩, hrun⟩ (_ | ⟨e', es'⟩) hprefix
      · exact hP
      · obtain ⟨rfl, hes'⟩ := List.cons_prefix_cons.mp hprefix
        exact (ih (hinv s _ hi ha) ((hstep s _ hi hP ha).mpr hok) hrest).mpr hrun es' hes'

end EventSystem

end Lib
end Horo
