/-
# The accessors of the managers

`src/managers/managers.cc`: each accessor builds its object at its first call
and keeps it in a static, all but `friendsManager`. `viewModels`, `models` and
`notifications` keep theirs after the arguments of the constructor have been
evaluated, `screensManager` before it calls `viewModels` and `notifications`;
the four use each other. In which order a compiler evaluates the arguments is
left open. The private instances of the platform are installed.

* `singletons_iff`: the accessors give one object each exactly if the first of
  the four that is called is `screensManager`.
-/
import Horo.Lib.Lazy

namespace Horo
namespace Managers

open Lib.Lazy

/-- The members of `Managers`, and `firestoreFactory`, a function of the file. -/
inductive Accessor
  | viewModels | models | screensManager | coreComponents | serializer | settings | facebookManager
  | firestoreFactory | firestore | daoFactory | horoscopesService | horoscopesParser
  | friendsProviderFactory | friendsManager | sharedWebViewServiceFactory | htmlParserFactory
  | birthdayDetector | notifications | ntp | themesManager | timerFactory | analytics
  | notificationCenter
  deriving DecidableEq

open Accessor

/-- The calls in the arguments of the constructor, as they are written. -/
def arguments : Accessor → List Accessor
  | viewModels => [models, themesManager]
  | models => [coreComponents, facebookManager, settings, firestore, horoscopesService, screensManager,
      notifications, ntp]
  | screensManager => [analytics]
  | settings => [serializer]
  | firestore => [firestoreFactory]
  | horoscopesService => [firestore, horoscopesParser, daoFactory]
  | friendsProviderFactory => [sharedWebViewServiceFactory, htmlParserFactory, timerFactory]
  | friendsManager => [friendsProviderFactory, daoFactory]
  | htmlParserFactory => [birthdayDetector]
  | notifications => [coreComponents, settings, serializer, notificationCenter, screensManager]
  | _ => []

/-- The arguments that are a DAO of the factory. -/
def makers : Accessor → List Accessor
  | horoscopesService | friendsManager => [daoFactory]
  | _ => []

def setters : Accessor → List Accessor
  | viewModels => [screensManager]
  | screensManager => [viewModels, notifications]
  | _ => []

/-- An order in which the arguments are evaluated. -/
structure EvaluationOrder where
  arguments : Accessor → List Accessor
  perm : ∀ a, (arguments a).Perm (Managers.arguments a)

def recipe (order : EvaluationOrder) (a : Accessor) : Recipe Accessor :=
  ⟨order.arguments a, makers a, setters a, a ≠ friendsManager⟩

/-- The accessors that use each other. -/
def cycle : List Accessor := [screensManager, notifications, models, viewModels]

/-- Calls on fresh managers. -/
def run (order : EvaluationOrder) (fuel : ℕ) (calls : List Accessor) :
    Option (List (Accessor × ℕ) × State Accessor) :=
  callAll (call (recipe order) fuel) calls .initial

/-! ### Calls that replace nothing -/

/-- The length of the longest chain of calls, `screensManager` having its
object. -/
def rank : Accessor → ℕ
  | settings | firestore | htmlParserFactory => 1
  | horoscopesService | friendsProviderFactory | notifications => 2
  | models | friendsManager => 3
  | viewModels => 4
  | _ => 0

theorem rank_lt (a : Accessor) : rank a < 5 := by cases a <;> decide

variable (order : EvaluationOrder)

theorem mem_uses {a b : Accessor} :
    b ∈ (recipe order a).arguments ++ (recipe order a).setters ↔ b ∈ arguments a ++ setters a := by
  rw [List.mem_append, List.mem_append]
  exact or_congr_left (order.perm a).mem_iff

theorem shared_iff {a : Accessor} : (recipe order a).shared = true ↔ a ≠ friendsManager :=
  decide_eq_true_iff

theorem rank_uses {a b : Accessor} (ha : a ≠ screensManager) (hb : b ∈ arguments a ++ setters a) :
    rank b < rank a ∧ b ≠ friendsManager := by
  revert b
  cases a <;> first | exact absurd rfl ha | decide

theorem notMem_cycle_of_uses {a b : Accessor} (ha : a ∉ cycle) (hb : b ∈ arguments a ++ setters a) :
    b ∉ cycle := by
  revert b
  cases a <;> first | exact absurd (by decide) ha | decide

theorem setters_shared {a c : Accessor} (hc : c ∈ setters a) : c ≠ friendsManager := by
  revert c
  cases a <;> decide

/-- Once `screensManager` has its object, every chain of calls ends. -/
theorem ranked_screensManager : Ranked (recipe order) (· = screensManager) (fun _ => True) rank := by
  refine ⟨fun a _ ha b hb => ?_⟩
  obtain ⟨hlt, hne⟩ := rank_uses ha ((mem_uses order).mp hb)
  exact ⟨trivial, hlt, (shared_iff order).mpr hne⟩

/-- The other accessors do not use the four. -/
theorem ranked_others : Ranked (recipe order) (fun _ => False) (· ∉ cycle) rank := by
  refine ⟨fun a ha _ b hb => ?_⟩
  have huses := (mem_uses order).mp hb
  have hne : a ≠ screensManager := by
    rintro rfl
    exact ha (by decide)
  obtain ⟨hlt, hshared⟩ := rank_uses hne huses
  exact ⟨notMem_cycle_of_uses ha huses, hlt, (shared_iff order).mpr hshared⟩

variable {order} {fuel : ℕ}

/-- None of the four has an object, and nothing was replaced. -/
structure Fresh (order : EvaluationOrder) (s : State Accessor) : Prop where
  none : ∀ a ∈ cycle, s.instances a = none
  grows : Grows (recipe order) .initial s

theorem settled_false (s : State Accessor) : Settled (fun _ => False) s := nofun

theorem Fresh.returns {s s' : State Accessor} {objects : List (Accessor × ℕ)} (hs : Fresh order s)
    (h : Returns (recipe order) (· ∉ cycle) s objects s') : Fresh order s' where
  none a ha := (h.only a (not_not_intro ha)).trans (hs.none a ha)
  grows := hs.grows.trans h.grows

variable (order) in
/-- A call of another accessor. -/
theorem Fresh.call_returns {a : Accessor} {s : State Accessor} (hfuel : 4 < fuel) (ha : a ∉ cycle) :
    ∃ i s', call (recipe order) fuel a s = some (i, s') ∧
      Returns (recipe order) (· ∉ cycle) s [(a, i)] s' := by
  have hlt := rank_lt a
  obtain ⟨i, s', hcall, hreturns⟩ :=
    Lib.Lazy.call_returns (ranked_others order) ha (by omega : rank a < fuel) (settled_false s)
  exact ⟨i, s', hcall, hreturns.mono fun b hb => hb.1⟩

variable (order) in
/-- A call after `screensManager` has its object. -/
theorem settled_returns (hfuel : 4 < fuel) (a : Accessor) (s : State Accessor)
    (hs : Settled (· = screensManager) s) : ∃ i s', call (recipe order) fuel a s = some (i, s') ∧
      Returns (recipe order) (fun _ => True) s [(a, i)] s' := by
  have hlt := rank_lt a
  obtain ⟨i, s', hcall, hreturns⟩ :=
    Lib.Lazy.call_returns (ranked_screensManager order) trivial (by omega : rank a < fuel) hs
  exact ⟨i, s', hcall, hreturns.mono fun _ _ => trivial⟩

theorem settled_screensManager {s s' : State Accessor} {i : ℕ} {P : Accessor → Prop}
    (h : Returns (recipe order) P s [(screensManager, i)] s') : Settled (· = screensManager) s' := by
  rintro b rfl
  rw [h.kept _ List.mem_cons_self rfl]
  nofun

/-- `screensManager` keeps its object before the others build theirs. -/
theorem screensManager_returns {s : State Accessor} (hfuel : 5 < fuel) (hs : Fresh order s) :
    ∃ i s', call (recipe order) fuel screensManager s = some (i, s') ∧
      Returns (recipe order) (fun _ => True) s [(screensManager, i)] s' ∧
      ∀ c ∈ cycle.tail, ∃ h i, (h, c, i) ∈ s'.held := by
  obtain ⟨fuel, rfl⟩ : ∃ n, fuel = n + 1 := ⟨fuel - 1, by omega⟩
  have harguments : ∀ a ∈ (recipe order screensManager).arguments, a ∉ cycle := by
    intro a ha
    rw [List.mem_singleton.mp ((order.perm screensManager).mem_iff.mp ha)]
    decide
  obtain ⟨objects, s₁, hcalls, hmap, hreturns⟩ := callAll_returns (Q := fun _ => False)
    (fun a ha s _ => Fresh.call_returns order (s := s) (by omega : 4 < fuel) (harguments a ha))
    (settled_false s)
  have hshared : ∀ b ∈ screensManager :: ((recipe order screensManager).arguments ++
      (recipe order screensManager).setters), (recipe order b).shared = true := by
    refine List.forall_mem_cons.mpr ⟨rfl, fun b hb => (shared_iff order).mpr ?_⟩
    replace hb : b ∈ arguments screensManager ++ setters screensManager := (mem_uses order).mp hb
    revert b
    decide
  obtain ⟨i, s₂, hcall, hbuilds, hheld⟩ := call_builds (Q := (· = screensManager))
    (hs.none screensManager (by decide)) hshared hcalls hmap hreturns (by decide)
    (fun b hb hne => absurd hb hne) fun c _ => settled_returns order (by omega) c
  replace hheld : ∀ c ∈ setters screensManager, ∃ h i, (h, c, i) ∈ s₂.held := hheld
  have hmodels : ∃ h i, (h, models, i) ∈ s₂.held := by
    obtain ⟨o, i, hi⟩ := hheld viewModels (by decide)
    refine hbuilds.grows.holds viewModels (hs.none viewModels (by decide)) ?_ models
      ((order.perm viewModels).mem_iff.mpr (by decide)) List.not_mem_nil
    rw [((hs.grows.trans hbuilds.grows).held_new o viewModels i hi).resolve_left nofun]
    nofun
  refine ⟨i, s₂, hcall, hbuilds.mono fun _ _ => trivial, fun c hc => ?_⟩
  rcases (by simpa [cycle] using hc : c = notifications ∨ c = models ∨ c = viewModels) with rfl | rfl | rfl
  · exact hheld notifications (by decide)
  · exact hmodels
  · exact hheld viewModels (by decide)

/-! ### Calls that replace an object -/

/-- The four have objects, which others hold. -/
structure Entangled (s : State Accessor) : Prop where
  settled : Settled (· = screensManager) s
  held : ∀ c ∈ cycle.tail, ∃ h i, (h, c, i) ∈ s.held ∧ i < s.built.length

theorem Entangled.grows {s s' : State Accessor} (h : Entangled s) (hgrows : Grows (recipe order) s s') :
    Entangled s' where
  settled := h.settled.grows hgrows
  held c hc := by
    obtain ⟨o, i, hi, hlt⟩ := h.held c hc
    exact ⟨o, i, hgrows.held hi, Nat.lt_of_lt_of_le hlt hgrows.length⟩

theorem Entangled.of_screensManager {s s' : State Accessor} {i : ℕ} (hs : Fresh order s)
    (h : Returns (recipe order) (fun _ => True) s [(screensManager, i)] s')
    (hheld : ∀ c ∈ cycle.tail, ∃ h i, (h, c, i) ∈ s'.held) : Entangled s' where
  settled := settled_screensManager h
  held c hc := by
    obtain ⟨o, j, hj⟩ := hheld c hc
    have hgrows := hs.grows.trans h.grows
    have hkept := (hgrows.held_new o c j hj).resolve_left nofun
    exact ⟨o, j, hj, (hgrows.instances_lt c j hkept).resolve_left nofun⟩

/-- An object that replaces the one which `a` has. -/
theorem Entangled.assign {s : State Accessor} (h : Entangled s) (a : Accessor)
    (kept : List (Accessor × ℕ)) : Entangled ((s.build a kept).assign a s.built.length) where
  settled b hb := by
    rcases eq_or_ne b a with rfl | hne
    · rw [State.instances_assign_self]
      nofun
    · rw [State.instances_assign_of_ne _ _ hne]
      exact h.settled b hb
  held c hc := by
    obtain ⟨o, i, hi, hlt⟩ := h.held c hc
    refine ⟨o, i, List.mem_append_left _ hi, ?_⟩
    rw [State.built_assign, State.built_build, List.length_append]
    exact Nat.lt_add_right 1 hlt

variable (order) in
theorem Entangled.callAll {s : State Accessor} (h : Entangled s) (hfuel : 4 < fuel) (as : List Accessor) :
    ∃ objects s', callAll (call (recipe order) fuel) as s = some (objects, s') ∧
      Grows (recipe order) s s' := by
  obtain ⟨objects, s', hcalls, -, hreturns⟩ :=
    callAll_returns (fun a _ => settled_returns order hfuel a) h.settled
  exact ⟨objects, s', hcalls, hreturns.grows⟩

/-- Arguments of which one calls an accessor of the four. -/
theorem callAll_entangled (hfuel : 4 < fuel) : ∀ {as : List Accessor},
    (∀ a ∈ as, a ∈ cycle → ∀ s, Fresh order s →
      ∃ i s', call (recipe order) fuel a s = some (i, s') ∧ Entangled s') →
    (∃ a ∈ as, a ∈ cycle) → ∀ {s : State Accessor}, Fresh order s →
      ∃ objects s', callAll (call (recipe order) fuel) as s = some (objects, s') ∧ Entangled s'
  | a :: as, hcalls, hmem, s, hs => by
    by_cases ha : a ∈ cycle
    · obtain ⟨i, s₁, hcall, h₁⟩ := hcalls a List.mem_cons_self ha s hs
      obtain ⟨objects, s₂, hrest, hgrows⟩ := h₁.callAll order hfuel as
      exact ⟨(a, i) :: objects, s₂, callAll_cons hcall hrest, h₁.grows hgrows⟩
    · obtain ⟨i, s₁, hcall, hreturns⟩ := Fresh.call_returns order (s := s) hfuel ha
      have hlater : ∃ b ∈ as, b ∈ cycle := by
        obtain ⟨b, hb, hcycle⟩ := hmem
        rcases List.mem_cons.mp hb with rfl | hb
        · exact absurd hcycle ha
        · exact ⟨b, hb, hcycle⟩
      obtain ⟨objects, s₂, hrest, h₂⟩ := callAll_entangled hfuel
        (fun b hb => hcalls b (List.mem_cons_of_mem a hb)) hlater (hs.returns hreturns)
      exact ⟨(a, i) :: objects, s₂, callAll_cons hcall hrest, h₂⟩

/-- The length of the longest chain of calls until `screensManager` has its
object, and from there. -/
def depthOf : Accessor → ℕ
  | viewModels => 8
  | models => 7
  | notifications => 6
  | _ => 5

theorem depthOf_arguments {a b : Accessor} (ha : a ∈ cycle.tail) (hb : b ∈ arguments a)
    (hcycle : b ∈ cycle) : depthOf b < depthOf a := by
  revert b
  revert a
  decide

theorem ne_of_mem_tail {a : Accessor} (ha : a ∈ cycle.tail) : a ≠ screensManager ∧ a ≠ friendsManager := by
  revert a
  decide

theorem uses_cycle {a : Accessor} (ha : a ∈ cycle.tail) : ∃ b ∈ arguments a, b ∈ cycle := by
  revert a
  decide

/-- **An accessor that calls itself is overwritten**: the one of the four that
is called first builds its object twice, and the first one is held. -/
theorem call_overwrites : ∀ {fuel : ℕ} {a : Accessor} {s : State Accessor},
    a ∈ cycle.tail → depthOf a < fuel → Fresh order s →
      ∃ i s', call (recipe order) fuel a s = some (i, s') ∧ Entangled s' ∧
        ∃ h j, (h, a, j) ∈ s'.held ∧ j ≠ i
  | fuel + 1, a, s, ha, hfuel, hs => by
    have hshared : (recipe order a).shared = true := (shared_iff order).mpr (ne_of_mem_tail ha).2
    obtain ⟨b, hb, hcycle⟩ := uses_cycle ha
    have hdepth : depthOf b < depthOf a := depthOf_arguments ha hb hcycle
    have hleast : 5 ≤ depthOf b := by cases b <;> decide
    have hcalls : ∀ b ∈ (recipe order a).arguments, b ∈ cycle → ∀ s, Fresh order s →
        ∃ i s', call (recipe order) fuel b s = some (i, s') ∧ Entangled s' := by
      intro b hb hcycle s hs
      have hlt := depthOf_arguments ha ((order.perm a).mem_iff.mp hb) hcycle
      rcases List.mem_cons.mp hcycle with rfl | htail
      · obtain ⟨i, s', hcall, hreturns, hheld⟩ := screensManager_returns (by omega : 5 < fuel) hs
        exact ⟨i, s', hcall, .of_screensManager hs hreturns hheld⟩
      · obtain ⟨i, s', hcall, hs', -⟩ := call_overwrites htail (by omega : depthOf b < fuel) hs
        exact ⟨i, s', hcall, hs'⟩
    obtain ⟨objects, s₁, harguments, h₁⟩ :=
      callAll_entangled (by omega) hcalls ⟨b, (order.perm a).mem_iff.mpr hb, hcycle⟩ hs
    have h₂ := h₁.assign a (keep (recipe order) a objects)
    obtain ⟨s₂, hset, hsetters, -⟩ := setAll_returns (a := a)
      (fun c (hc : c ∈ setters a) => ⟨(shared_iff order).mpr (setters_shared hc),
        settled_returns order (by omega : 4 < fuel) c⟩)
      (by rw [State.instances_assign_self]; nofun) h₂.settled
    have hobject := hsetters.grows.instances a _ (State.instances_assign_self ..)
    have hnone : s.instances a = none := hs.none a (List.mem_of_mem_tail ha)
    obtain ⟨o, j, hj, hlt⟩ := h₁.held a ha
    refine ⟨_, s₂, call_shared hnone hshared harguments hset hobject, h₂.grows hsetters.grows,
      o, j, hsetters.grows.held (List.mem_append_left _ hj), Nat.ne_of_lt hlt⟩

/-! ### Runs -/

/-- Fuel that is enough for every run. -/
def depth : ℕ := 9

theorem depthOf_lt (a : Accessor) : depthOf a < depth := by cases a <;> decide

theorem fresh_initial : Fresh order .initial := ⟨fun _ _ => rfl, .refl _⟩

variable (order) in
/-- Calls of the other accessors. -/
theorem Fresh.callAll_returns {as : List Accessor} (hfuel : 4 < fuel) (has : ∀ a ∈ as, a ∉ cycle)
    (s : State Accessor) : ∃ objects s', callAll (call (recipe order) fuel) as s = some (objects, s') ∧
      Returns (recipe order) (· ∉ cycle) s objects s' := by
  obtain ⟨objects, s', hcalls, -, hreturns⟩ := Lib.Lazy.callAll_returns (Q := fun _ => False)
    (fun a ha s _ => Fresh.call_returns order (s := s) hfuel (has a ha)) (settled_false s)
  exact ⟨objects, s', hcalls, hreturns⟩

/-- **The accessors are singletons exactly if the first of the four that is
called, if one is, is `screensManager`**; every run returns. -/
theorem singletons_iff (order : EvaluationOrder) (fuel : ℕ) (calls : List Accessor) :
    ∃ returned s, run order (fuel + depth) calls = some (returned, s) ∧
      (Singletons (recipe order) returned s ↔ ∀ a ∈ calls.find? (· ∈ cycle), a = screensManager) := by
  have hfuel : 5 < fuel + depth := by
    rw [depth]
    omega
  have hfuel' := Nat.lt_of_succ_lt hfuel
  rcases hfind : calls.find? (· ∈ cycle) with _ | a
  · have hothers : ∀ a ∈ calls, a ∉ cycle := by simpa using hfind
    obtain ⟨returned, s, hrun, hreturns⟩ := Fresh.callAll_returns order hfuel' hothers .initial
    exact ⟨returned, s, hrun, iff_of_true hreturns.singletons nofun⟩
  · obtain ⟨hcycle, as, bs, rfl, hothers⟩ := List.find?_eq_some_iff_append.mp hfind
    replace hcycle : a ∈ cycle := of_decide_eq_true hcycle
    replace hothers : ∀ b ∈ as, b ∉ cycle := by simpa using hothers
    obtain ⟨before, s₁, hbefore, hreturns⟩ := Fresh.callAll_returns order hfuel' hothers .initial
    have hfresh := fresh_initial.returns hreturns
    rcases List.mem_cons.mp hcycle with rfl | htail
    · obtain ⟨i, s₂, hcall, hone, -⟩ := screensManager_returns hfuel hfresh
      obtain ⟨after, s₃, hafter, -, hall⟩ := callAll_returns
        (fun a (_ : a ∈ bs) => settled_returns order hfuel' a) (settled_screensManager hone)
      have hreturned := (hreturns.mono fun _ _ => trivial).trans (hone.trans hall)
      exact ⟨_, s₃, callAll_append hbefore (callAll_cons hcall hafter), iff_of_true hreturned.singletons
        fun b hb => (Option.some.inj hb).symm⟩
    · have hdepth := depthOf_lt a
      obtain ⟨i, s₂, hcall, h₂, o, j, hheld, hne⟩ :=
        call_overwrites htail (by omega : depthOf a < fuel + depth) hfresh
      obtain ⟨after, s₃, hafter, hgrows⟩ := h₂.callAll order hfuel' bs
      have hne' := ne_of_mem_tail htail
      refine ⟨_, s₃, callAll_append hbefore (callAll_cons hcall hafter),
        iff_of_false (fun h => hne ?_) fun h => hne'.1 (h a rfl)⟩
      exact h.one_met a ((shared_iff order).mpr hne'.2) j i (Or.inr ⟨o, hgrows.held hheld⟩)
        (Or.inl (List.mem_append_right _ List.mem_cons_self))

def leftToRight : EvaluationOrder := ⟨arguments, fun _ => .refl _⟩

/-- `notifications` first: two of them are built. -/
theorem two_notifications : ∃ returned s, run leftToRight depth [notifications] = some (returned, s) ∧
    s.built.count notifications = 2 ∧ ¬ Singletons (recipe leftToRight) returned s := by
  have hbuilt : (run leftToRight depth [notifications]).map (fun r => r.2.built.count notifications) =
    some 2 := by decide +kernel
  obtain ⟨⟨returned, s⟩, hrun, hcount⟩ := Option.map_eq_some_iff.mp hbuilt
  replace hcount : s.built.count notifications = 2 := hcount
  refine ⟨returned, s, hrun, hcount, fun h => ?_⟩
  have hone := h.one_built notifications rfl
  omega

end Managers
end Horo
