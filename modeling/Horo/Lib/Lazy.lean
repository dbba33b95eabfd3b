/-
# Objects that are built when they are asked for

Accessors that keep one object each in a static: the first call evaluates the
arguments of the constructor by calls of other accessors, builds the object,
keeps it and then calls setters, which may call accessors again. An accessor
that is called again before it keeps its object builds another one.

* `call_returns`: where the accessors that are used come before the one that
  uses them, or have their object already, every call returns and no object is
  replaced.
* `Grows.singletons`: then whatever is met of an accessor is one object.
-/
import Mathlib.Data.List.Basic
import Mathlib.Logic.Function.Basic

namespace Horo
namespace Lib
namespace Lazy

/-- How an accessor gets its object: the accessors that the arguments of the
constructor call, in the order of the calls, those among them whose object only
makes the argument, and those whose object is set afterwards. An object that is
not shared is built by every call. -/
structure Recipe (α : Type) where
  arguments : List α
  makers : List α
  setters : List α
  shared : Bool

/-- What the accessors keep, the accessors in the order in which they built
objects, an object being its place in it, and what the objects hold. -/
structure State (α : Type) where
  instances : α → Option ℕ
  built : List α
  held : List (ℕ × α × ℕ)

variable {α : Type}

namespace State

def initial : State α := ⟨fun _ => none, [], []⟩

/-- `new` with the objects that the constructor keeps. -/
def build (s : State α) (a : α) (kept : List (α × ℕ)) : State α :=
  { s with built := s.built ++ [a], held := s.held ++ kept.map fun x => (s.built.length, x) }

def hold (s : State α) (object : ℕ) (x : α × ℕ) : State α := { s with held := s.held ++ [(object, x)] }

def assign [DecidableEq α] (s : State α) (a : α) (object : ℕ) : State α :=
  { s with instances := Function.update s.instances a (some object) }

section
variable (s : State α) (a : α) (kept : List (α × ℕ)) (object : ℕ)

@[simp] theorem instances_build : (s.build a kept).instances = s.instances := rfl

@[simp] theorem built_build : (s.build a kept).built = s.built ++ [a] := rfl

variable [DecidableEq α]

@[simp] theorem built_assign : (s.assign a object).built = s.built := rfl

@[simp] theorem instances_assign_self : (s.assign a object).instances a = some object :=
  Function.update_self ..

variable {a} in
@[simp] theorem instances_assign_of_ne {b : α} (h : b ≠ a) :
    (s.assign a object).instances b = s.instances b :=
  Function.update_of_ne h ..

end

end State

def callAll (f : α → State α → Option (ℕ × State α)) : List α → State α → Option (List (α × ℕ) × State α)
  | [], s => some ([], s)
  | a :: as, s => do
    let (object, s) ← f a s
    let (objects, s) ← callAll f as s
    return ((a, object) :: objects, s)

/-- The setters of the object that `a` keeps. -/
def setAll (f : α → State α → Option (ℕ × State α)) (a : α) : List α → State α → Option (State α)
  | [], s => some s
  | c :: cs, s => do
    let object ← s.instances a
    let (collaborator, s) ← f c s
    setAll f a cs (s.hold object (c, collaborator))

theorem callAll_cons {f : α → State α → Option (ℕ × State α)} {a : α} {as : List α} {i : ℕ}
    {objects : List (α × ℕ)} {s₁ s₂ s₃ : State α} (h : f a s₁ = some (i, s₂))
    (h' : callAll f as s₂ = some (objects, s₃)) :
    callAll f (a :: as) s₁ = some ((a, i) :: objects, s₃) := by
  simp [callAll, h, h']

theorem callAll_append {f : α → State α → Option (ℕ × State α)} {objects' : List (α × ℕ)}
    {s₂ s₃ : State α} : ∀ {as bs : List α} {objects : List (α × ℕ)} {s₁ : State α},
    callAll f as s₁ = some (objects, s₂) → callAll f bs s₂ = some (objects', s₃) →
      callAll f (as ++ bs) s₁ = some (objects ++ objects', s₃)
  | [], bs, objects, s₁, h, h' => by
    cases h
    exact h'
  | a :: as, bs, objects, s₁, h, h' => by
    obtain ⟨⟨i, s⟩, hcall, h⟩ := Option.bind_eq_some_iff.mp h
    obtain ⟨⟨objects, s'⟩, hcalls, h⟩ := Option.bind_eq_some_iff.mp h
    cases h
    exact callAll_cons hcall (callAll_append hcalls h')

variable [DecidableEq α] (recipe : α → Recipe α)

def call : ℕ → α → State α → Option (ℕ × State α)
  | 0, _, _ => none
  | fuel + 1, a, s =>
    match s.instances a with
    | some object => some (object, s)
    | none => do
      let (objects, s) ← callAll (call fuel) (recipe a).arguments s
      let object := s.built.length
      let s := s.build a (objects.filter fun x => x.1 ∉ (recipe a).makers)
      if (recipe a).shared then
        let s ← setAll (call fuel) a (recipe a).setters (s.assign a object)
        let object ← s.instances a
        return (object, s)
      else return (object, s)

/-! ### Growing -/

/-- No object is replaced, and every one that is added is kept, built once, held
by those that keep it and holds what its constructor keeps. -/
structure Grows (s s' : State α) : Prop where
  instances : ∀ a i, s.instances a = some i → s'.instances a = some i
  length : s.built.length ≤ s'.built.length
  instances_lt : ∀ a i, s'.instances a = some i → s.instances a = some i ∨ i < s'.built.length
  held : s.held ⊆ s'.held
  held_new : ∀ h c i, (h, c, i) ∈ s'.held → (h, c, i) ∈ s.held ∨ s'.instances c = some i
  once : ∀ a, (recipe a).shared = true →
    s'.built.count a + (s.instances a).toList.length = s.built.count a + (s'.instances a).toList.length
  holds : ∀ a, s.instances a = none → s'.instances a ≠ none →
    ∀ c ∈ (recipe a).arguments, c ∉ (recipe a).makers → ∃ h i, (h, c, i) ∈ s'.held

variable {recipe}

theorem Grows.refl (s : State α) : Grows recipe s s :=
  ⟨fun _ _ h => h, Nat.le_refl _, fun _ _ h => Or.inl h, fun _ h => h, fun _ _ _ h => Or.inl h, fun _ _ => rfl,
    fun _ h h' => absurd h h'⟩

theorem Grows.trans {s₁ s₂ s₃ : State α} (h : Grows recipe s₁ s₂) (h' : Grows recipe s₂ s₃) :
    Grows recipe s₁ s₃ where
  instances a i hi := h'.instances a i (h.instances a i hi)
  length := Nat.le_trans h.length h'.length
  instances_lt a i hi := by
    rcases h'.instances_lt a i hi with hi | hi
    · exact (h.instances_lt a i hi).imp_right fun hlt => Nat.lt_of_lt_of_le hlt h'.length
    · exact Or.inr hi
  held _ hx := h'.held (h.held hx)
  held_new o c i hi := by
    rcases h'.held_new o c i hi with hi | hi
    · exact (h.held_new o c i hi).imp_right (h'.instances c i)
    · exact Or.inr hi
  once a ha := by
    have h₁ := h.once a ha
    have h₂ := h'.once a ha
    omega
  holds a hnone hsome c hc hmaker := by
    by_cases hmiddle : s₂.instances a = none
    · exact h'.holds a hmiddle hsome c hc hmaker
    · obtain ⟨o, i, hheld⟩ := h.holds a hnone hmiddle c hc hmaker
      exact ⟨o, i, h'.held hheld⟩

theorem Grows.ne_none {s s' : State α} (h : Grows recipe s s') {a : α} (ha : s.instances a ≠ none) :
    s'.instances a ≠ none := by
  obtain ⟨i, hi⟩ := Option.ne_none_iff_exists'.mp ha
  rw [h.instances a i hi]
  nofun

/-- What is held is held of what is kept. -/
theorem Grows.hold {s : State α} {c : α} {i : ℕ} (object : ℕ) (hc : s.instances c = some i) :
    Grows recipe s (s.hold object (c, i)) where
  instances _ _ h := h
  length := Nat.le_refl _
  instances_lt _ _ h := Or.inl h
  held := List.subset_append_left _ _
  held_new o d j hj := by
    rcases List.mem_append.mp hj with hj | hj
    · exact Or.inl hj
    · obtain ⟨rfl, rfl, rfl⟩ : o = object ∧ d = c ∧ j = i := by simpa using hj
      exact Or.inr hc
  once _ _ := rfl
  holds _ h h' := absurd h h'

/-- A new object that is kept. -/
theorem Grows.assign {s : State α} {a : α} {kept : List (α × ℕ)} (ha : s.instances a = none)
    (hkept : ∀ x ∈ kept, s.instances x.1 = some x.2)
    (hall : ∀ c ∈ (recipe a).arguments, c ∉ (recipe a).makers → ∃ i, (c, i) ∈ kept) :
    Grows recipe s ((s.build a kept).assign a s.built.length) := by
  have hne : ∀ {b i}, s.instances b = some i → b ≠ a := by
    rintro b i hi rfl
    rw [ha] at hi
    cases hi
  refine ⟨fun b i hi => ?_, by simp, fun b i hi => ?_, List.subset_append_left _ _, fun o c i hi => ?_,
    fun b _ => ?_, fun b hnone hsome c hc hmaker => ?_⟩
  · rwa [State.instances_assign_of_ne _ _ (hne hi)]
  · rcases eq_or_ne b a with rfl | hb
    · rw [State.instances_assign_self] at hi
      obtain rfl := Option.some.inj hi
      exact Or.inr (by simp)
    · rw [State.instances_assign_of_ne _ _ hb] at hi
      exact Or.inl hi
  · rcases List.mem_append.mp hi with hi | hi
    · exact Or.inl hi
    · obtain ⟨x, hx, heq⟩ := List.mem_map.mp hi
      obtain ⟨-, rfl⟩ := Prod.mk.inj heq
      rw [State.instances_assign_of_ne _ _ (hne (hkept _ hx))]
      exact Or.inr (hkept _ hx)
  · rcases eq_or_ne b a with rfl | hb
    · simp [ha]
    · simp [hb, hb.symm]
  · rcases eq_or_ne b a with rfl | hb
    · obtain ⟨i, hi⟩ := hall c hc hmaker
      exact ⟨s.built.length, i, List.mem_append_right _ (List.mem_map.mpr ⟨_, hi, rfl⟩)⟩
    · rw [State.instances_assign_of_ne _ _ hb] at hsome
      exact absurd hnone hsome

/-- A new object that is not kept. -/
theorem Grows.build {s : State α} {a : α} {kept : List (α × ℕ)} (ha : (recipe a).shared = false)
    (hkept : ∀ x ∈ kept, s.instances x.1 = some x.2) : Grows recipe s (s.build a kept) where
  instances _ _ h := h
  length := by simp [State.build]
  instances_lt _ _ h := Or.inl h
  held := List.subset_append_left _ _
  held_new o c i hi := by
    rcases List.mem_append.mp hi with hi | hi
    · exact Or.inl hi
    · obtain ⟨x, hx, heq⟩ := List.mem_map.mp hi
      obtain ⟨-, rfl⟩ := Prod.mk.inj heq
      exact Or.inr (hkept _ hx)
  once b hb := by
    have hne : a ≠ b := by
      rintro rfl
      rw [ha] at hb
      cases hb
    simp [State.build, hne]
  holds _ h h' := absurd h h'

/-! ### Calls -/

/-- Calls that returned objects: what was kept stays, no other accessor than
those of `P` has got one, and what is shared was kept. -/
structure Returns (recipe : α → Recipe α) (P : α → Prop) (s : State α) (objects : List (α × ℕ))
    (s' : State α) : Prop where
  grows : Grows recipe s s'
  only : ∀ b, ¬ P b → s'.instances b = s.instances b
  kept : ∀ x ∈ objects, (recipe x.1).shared = true → s'.instances x.1 = some x.2

theorem Returns.mono {P P' : α → Prop} {s s' : State α} {objects : List (α × ℕ)}
    (h : Returns recipe P s objects s') (hP : ∀ b, P b → P' b) : Returns recipe P' s objects s' :=
  ⟨h.grows, fun b hb => h.only b (mt (hP b) hb), h.kept⟩

variable {f : α → State α → Option (ℕ × State α)} {P Q : α → Prop}

/-- The accessors that have their object. -/
def Settled (Q : α → Prop) (s : State α) : Prop := ∀ b, Q b → s.instances b ≠ none

theorem Settled.grows {s s' : State α} (h : Settled Q s) (hgrows : Grows recipe s s') : Settled Q s' :=
  fun b hb => hgrows.ne_none (h b hb)

theorem callAll_returns : ∀ {as : List α},
    (∀ a ∈ as, ∀ s, Settled Q s → ∃ i s', f a s = some (i, s') ∧ Returns recipe P s [(a, i)] s') →
    ∀ {s : State α}, Settled Q s → ∃ objects s', callAll f as s = some (objects, s') ∧
      objects.map Prod.fst = as ∧ Returns recipe P s objects s'
  | [], _, s, _ => ⟨[], s, rfl, rfl, .refl s, fun _ _ => rfl, nofun⟩
  | a :: as, hf, s, hs => by
    obtain ⟨i, s₁, hcall, hone⟩ := hf a List.mem_cons_self s hs
    obtain ⟨objects, s₂, hcalls, hmap, hall⟩ :=
      callAll_returns (fun b hb => hf b (List.mem_cons_of_mem a hb)) (hs.grows hone.grows)
    refine ⟨(a, i) :: objects, s₂, callAll_cons hcall hcalls, by rw [List.map_cons, hmap],
      hone.grows.trans hall.grows, fun b hb => (hall.only b hb).trans (hone.only b hb), fun x hx hshared => ?_⟩
    rcases List.mem_cons.mp hx with rfl | hx
    · exact hall.grows.instances a i (hone.kept _ List.mem_cons_self hshared)
    · exact hall.kept x hx hshared

theorem setAll_returns {a : α} : ∀ {cs : List α},
    (∀ c ∈ cs, (recipe c).shared = true ∧
      ∀ s, Settled Q s → ∃ i s', f c s = some (i, s') ∧ Returns recipe P s [(c, i)] s') →
    ∀ {s : State α}, s.instances a ≠ none → Settled Q s →
      ∃ s', setAll f a cs s = some s' ∧ Returns recipe P s [] s' ∧ ∀ c ∈ cs, ∃ h i, (h, c, i) ∈ s'.held
  | [], _, s, _, _ => ⟨s, rfl, ⟨.refl s, fun _ _ => rfl, nofun⟩, nofun⟩
  | c :: cs, hf, s, ha, hs => by
    obtain ⟨object, hobject⟩ := Option.ne_none_iff_exists'.mp ha
    obtain ⟨hshared, hcalls⟩ := hf c List.mem_cons_self
    obtain ⟨i, s₁, hcall, hone⟩ := hcalls s hs
    have hhold : Grows recipe s₁ (s₁.hold object (c, i)) :=
      .hold object (hone.kept _ List.mem_cons_self hshared)
    have hgrows := hone.grows.trans hhold
    obtain ⟨s₂, hset, hall, hheld⟩ :=
      setAll_returns (fun d hd => hf d (List.mem_cons_of_mem c hd)) (hgrows.ne_none ha) (hs.grows hgrows)
    refine ⟨s₂, by simp [setAll, hobject, hcall, hset],
      ⟨hgrows.trans hall.grows, fun b hb => (hall.only b hb).trans (hone.only b hb), nofun⟩,
      fun d hd => ?_⟩
    rcases List.mem_cons.mp hd with rfl | hd
    · exact ⟨object, i, hall.grows.held (List.mem_append_right _ List.mem_cons_self)⟩
    · exact hheld d hd

/-- The accessors of `D` use accessors of `D` that come before them, or that
have their object already. -/
structure Ranked (recipe : α → Recipe α) (Q D : α → Prop) (rank : α → ℕ) : Prop where
  uses : ∀ a, D a → ¬ Q a → ∀ b ∈ (recipe a).arguments ++ (recipe a).setters,
    D b ∧ rank b < rank a ∧ (recipe b).shared = true

/-- The constructor keeps the objects of the arguments. -/
def keep (recipe : α → Recipe α) (a : α) (objects : List (α × ℕ)) : List (α × ℕ) :=
  objects.filter fun x => x.1 ∉ (recipe a).makers

/-- A call that builds: its arguments, the object, the setters. -/
theorem call_shared {fuel : ℕ} {a : α} {s s₁ s₂ : State α} {objects : List (α × ℕ)} {object : ℕ}
    (hnone : s.instances a = none) (hshared : (recipe a).shared = true)
    (harguments : callAll (call recipe fuel) (recipe a).arguments s = some (objects, s₁))
    (hsetters : setAll (call recipe fuel) a (recipe a).setters
      ((s₁.build a (keep recipe a objects)).assign a s₁.built.length) = some s₂)
    (hobject : s₂.instances a = some object) : call recipe (fuel + 1) a s = some (object, s₂) := by
  rw [call, hnone]
  simp only [harguments, Option.bind_eq_bind, Option.bind_some, hshared, if_true]
  rw [← keep, hsetters, Option.bind_some, hobject]
  rfl

/-- A call that builds an object which is not kept. -/
theorem call_notShared {fuel : ℕ} {a : α} {s s₁ : State α} {objects : List (α × ℕ)}
    (hnone : s.instances a = none) (hshared : (recipe a).shared = false)
    (harguments : callAll (call recipe fuel) (recipe a).arguments s = some (objects, s₁)) :
    call recipe (fuel + 1) a s = some (s₁.built.length, s₁.build a (keep recipe a objects)) := by
  rw [call, hnone]
  simp [harguments, hshared, keep]

/-- The object that is built after its arguments, if these give it none. -/
theorem Returns.assign {a : α} {s₁ : State α} {objects : List (α × ℕ)} (hnone : s₁.instances a = none)
    (hmap : objects.map Prod.fst = (recipe a).arguments)
    (hkept : ∀ x ∈ objects, s₁.instances x.1 = some x.2) :
    Returns recipe (· = a) s₁ [(a, s₁.built.length)]
      ((s₁.build a (keep recipe a objects)).assign a s₁.built.length) where
  grows := by
    refine .assign hnone (fun x hx => hkept x (List.mem_of_mem_filter hx)) fun c hc hmaker => ?_
    rw [← hmap] at hc
    obtain ⟨x, hx, rfl⟩ := List.mem_map.mp hc
    exact ⟨x.2, List.mem_filter.mpr ⟨hx, decide_eq_true hmaker⟩⟩
  only b hb := State.instances_assign_of_ne _ _ hb
  kept x hx _ := by
    obtain rfl := List.mem_singleton.mp hx
    exact State.instances_assign_self ..

/-- A call that builds a shared object: its arguments give it none, and its
setters return once it is kept. -/
theorem call_builds {P' : α → Prop} {fuel : ℕ} {a : α} {s s₁ : State α} {objects : List (α × ℕ)}
    (hnone : s.instances a = none)
    (hshared : ∀ b ∈ a :: ((recipe a).arguments ++ (recipe a).setters), (recipe b).shared = true)
    (harguments : callAll (call recipe fuel) (recipe a).arguments s = some (objects, s₁))
    (hmap : objects.map Prod.fst = (recipe a).arguments) (hreturns : Returns recipe P s objects s₁)
    (ha : ¬ P a) (hsettled : ∀ b, Q b → b ≠ a → s₁.instances b ≠ none)
    (hcalls : ∀ c ∈ (recipe a).setters, ∀ s, Settled Q s →
      ∃ i s', call recipe fuel c s = some (i, s') ∧ Returns recipe P' s [(c, i)] s') :
    ∃ i s', call recipe (fuel + 1) a s = some (i, s') ∧
      Returns recipe (fun b => b = a ∨ P b ∨ P' b) s [(a, i)] s' ∧
      ∀ c ∈ (recipe a).setters, ∃ h i, (h, c, i) ∈ s'.held := by
  have hself := hshared a List.mem_cons_self
  have hkept : ∀ x ∈ objects, s₁.instances x.1 = some x.2 := by
    intro x hx
    have hmem : x.1 ∈ (recipe a).arguments := hmap ▸ List.mem_map_of_mem hx
    exact hreturns.kept x hx (hshared x.1 (List.mem_cons_of_mem a (List.mem_append_left _ hmem)))
  have hstill : s₁.instances a = none := by rw [hreturns.only a ha, hnone]
  have hbuilt := Returns.assign hstill hmap hkept
  have hinstance := hbuilt.kept _ List.mem_cons_self hself
  obtain ⟨s₂, hset, hsetters, hheld⟩ := setAll_returns (a := a)
    (fun c hc => ⟨hshared c (List.mem_cons_of_mem a (List.mem_append_right _ hc)), hcalls c hc⟩)
    (by rw [hinstance]; nofun) fun b hb => by
      rcases eq_or_ne b a with rfl | hne
      · rw [hinstance]
        nofun
      · exact hbuilt.grows.ne_none (hsettled b hb hne)
  have hobject := hsetters.grows.instances a _ hinstance
  refine ⟨_, s₂, call_shared hnone hself harguments hset hobject,
    ⟨(hreturns.grows.trans hbuilt.grows).trans hsetters.grows, fun b hb => ?_, fun x hx _ => ?_⟩, hheld⟩
  · rw [not_or, not_or] at hb
    rw [hsetters.only b hb.2.2, hbuilt.only b hb.1, hreturns.only b hb.2.1]
  · obtain rfl := List.mem_singleton.mp hx
    exact hobject

/-- **A call of a ranked accessor returns, and replaces no object.** -/
theorem call_returns {D : α → Prop} {rank : α → ℕ} (hranked : Ranked recipe Q D rank) :
    ∀ {fuel : ℕ} {a : α} {s : State α}, D a → rank a < fuel → Settled Q s →
      ∃ i s', call recipe fuel a s = some (i, s') ∧
        Returns recipe (fun b => D b ∧ rank b ≤ rank a) s [(a, i)] s'
  | fuel + 1, a, s, hD, hfuel, hs => by
    rcases hnone : s.instances a with _ | i
    · have huses := hranked.uses a hD fun hQ => hs a hQ hnone
      have hcalls : ∀ b ∈ (recipe a).arguments ++ (recipe a).setters, ∀ s, Settled Q s →
          ∃ i s', call recipe fuel b s = some (i, s') ∧
            Returns recipe (fun b => D b ∧ rank b < rank a) s [(b, i)] s' := by
        intro b hb s hs
        obtain ⟨hDb, hlt, -⟩ := huses b hb
        obtain ⟨i, s', hcall, hreturns⟩ := call_returns hranked hDb (by omega : rank b < fuel) hs
        exact ⟨i, s', hcall, hreturns.mono fun c hc => ⟨hc.1, by omega⟩⟩
      have hlow : ¬ (D a ∧ rank a < rank a) := fun h => Nat.lt_irrefl _ h.2
      obtain ⟨objects, s₁, harguments, hmap, hreturns⟩ :=
        callAll_returns (fun b hb => hcalls b (List.mem_append_left _ hb)) hs
      rcases hshared : (recipe a).shared with _ | _
      · have hkept : ∀ x ∈ keep recipe a objects, s₁.instances x.1 = some x.2 := by
          intro x hx
          have hx := List.mem_of_mem_filter hx
          have hmem : x.1 ∈ (recipe a).arguments := hmap ▸ List.mem_map_of_mem hx
          exact hreturns.kept x hx (huses x.1 (List.mem_append_left _ hmem)).2.2
        refine ⟨_, _, call_notShared hnone hshared harguments, hreturns.grows.trans (.build hshared hkept),
          fun b hb => hreturns.only b fun h => hb ⟨h.1, Nat.le_of_lt h.2⟩, fun x hx hx' => ?_⟩
        obtain rfl := List.mem_singleton.mp hx
        rw [hshared] at hx'
        cases hx'
      · obtain ⟨i, s', hcall, hbuilds, -⟩ := call_builds hnone
          (List.forall_mem_cons.mpr ⟨hshared, fun b hb => (huses b hb).2.2⟩) harguments hmap hreturns hlow
          (fun b hb _ => hs.grows hreturns.grows b hb) fun c hc => hcalls c (List.mem_append_right _ hc)
        refine ⟨i, s', hcall, hbuilds.mono fun b hb => ?_⟩
        rcases hb with rfl | hb | hb
        · exact ⟨hD, Nat.le_refl _⟩
        · exact ⟨hb.1, Nat.le_of_lt hb.2⟩
        · exact ⟨hb.1, Nat.le_of_lt hb.2⟩
    · refine ⟨i, s, by rw [call, hnone], .refl s, fun _ _ => rfl, fun x hx _ => ?_⟩
      obtain rfl := List.mem_singleton.mp hx
      exact hnone

/-! ### Singletons -/

/-- An object of an accessor that is seen: returned by a call, or held by an
object. -/
def Met (returned : List (α × ℕ)) (s : State α) (a : α) (object : ℕ) : Prop :=
  (a, object) ∈ returned ∨ ∃ h, (h, a, object) ∈ s.held

/-- Of a shared accessor one object is ever seen, and at most one is built. -/
structure Singletons (recipe : α → Recipe α) (returned : List (α × ℕ)) (s : State α) : Prop where
  one_met : ∀ a, (recipe a).shared = true →
    ∀ i j, Met returned s a i → Met returned s a j → i = j
  one_built : ∀ a, (recipe a).shared = true → s.built.count a ≤ 1

theorem Returns.singletons {returned : List (α × ℕ)} {s : State α}
    (h : Returns recipe P .initial returned s) : Singletons recipe returned s := by
  have hmet : ∀ {a i}, (recipe a).shared = true → Met returned s a i → s.instances a = some i := by
    rintro a i hshared (hi | ⟨o, hi⟩)
    · exact h.kept _ hi hshared
    · exact (h.grows.held_new o a i hi).resolve_left nofun
  refine ⟨fun a hshared i j hi hj => ?_, fun a hshared => ?_⟩
  · exact Option.some.inj ((hmet hshared hi).symm.trans (hmet hshared hj))
  · have honce := h.grows.once a hshared
    have hlength : (s.instances a).toList.length ≤ 1 := by cases s.instances a <;> simp
    simp only [State.initial, Option.toList_none, List.length_nil, List.count_nil] at honce
    omega

theorem Returns.trans {objects objects' : List (α × ℕ)} {s₁ s₂ s₃ : State α}
    (h : Returns recipe P s₁ objects s₂) (h' : Returns recipe P s₂ objects' s₃) :
    Returns recipe P s₁ (objects ++ objects') s₃ where
  grows := h.grows.trans h'.grows
  only b hb := (h'.only b hb).trans (h.only b hb)
  kept x hx hshared := by
    rcases List.mem_append.mp hx with hx | hx
    · exact h'.grows.instances _ _ (h.kept x hx hshared)
    · exact h'.kept x hx hshared

end Lazy
end Lib
end Horo
