/-
# The runs of a `RungTimer`

`src/classes/rungtimer` with the timers of its factory: `performStep` statement
by statement, the timers that are scheduled, and when they fire. A timer fires
once, at the end of its interval, unless it has been invalidated; a callback
takes no time, and answers whether it wants to be called again.

* `step_inv`: what a `RungTimer` has done with `k` callbacks, at each point of
  its code.
* `climbs_once`: one timer at a time, the callbacks at the sums of the timeouts,
  none behind the first `false`, and else one for each timeout.
* `view_rung`: what becomes of the `RungTimer` that the friends screen holds.
-/
import Horo.Friends.RungTimer
import Horo.Lib.Reach
import Mathlib.Algebra.BigOperators.Group.List.Basic
import Mathlib.Algebra.Ring.Int.Defs

namespace Horo
namespace RungLadder

open Lib EventSystem

/-- A timer of the factory that has been scheduled. -/
structure Timer where
  id : ℕ
  timeInterval : ℤ
  fireAt : ℤ
  deriving DecidableEq

/-- Where the code of a `RungTimer` is: not running, in the callback, at the
start of `performStep`, or behind its first statement. -/
inductive Point
  | idle
  | callback
  | performStep
  | schedule
  deriving DecidableEq

/-- A `RungTimer`, the timers of its factory, and what has been called and
answered. -/
structure State where
  now : ℤ
  scheduled : List Timer
  nextId : ℕ
  timeouts : List ℤ
  currentTimer : Option ℕ
  callback : Bool
  point : Point
  callbacks : List ℤ
  answers : List Bool

/-- The constructor, up to its call of `performStep`. -/
def start (now : ℤ) (timeouts : List ℤ) (callback : Bool) : State where
  now := now
  scheduled := []
  nextId := 0
  timeouts := timeouts
  currentTimer := none
  callback := callback
  point := .performStep
  callbacks := []
  answers := []

inductive Event
  | fire (id : ℕ)
  | answer (again : Bool)
  | proceed
  deriving DecidableEq

namespace State

/-- The completion of a timer: `if (callback_)`. -/
def fire (s : State) (id : ℕ) : State :=
  match s.scheduled.find? (·.id = id) with
  | none => s
  | some timer =>
    let s := { s with now := timer.fireAt, scheduled := s.scheduled.filter (·.id ≠ id) }
    if s.callback then { s with point := .callback, callbacks := s.callbacks ++ [s.now] }
    else { s with point := .performStep }

/-- `if (!callback_()) return;`. -/
def answer (s : State) (again : Bool) : State :=
  { s with answers := s.answers ++ [again], point := if again then .performStep else .idle }

/-- `currentTimer_ = nullptr`: the destructor of the timer invalidates it. -/
def release (s : State) : State :=
  { s with
    scheduled := s.scheduled.filter fun timer => s.currentTimer ≠ some timer.id
    currentTimer := none
    point := .schedule }

/-- The rest of `performStep`. -/
def schedule (s : State) : State :=
  match s.timeouts with
  | [] => { s with point := .idle }
  | frontTimeout :: timeouts =>
    { s with
      timeouts
      scheduled := s.scheduled ++ [⟨s.nextId, frontTimeout, s.now + frontTimeout⟩]
      nextId := s.nextId + 1
      currentTimer := some s.nextId
      point := .idle }

def proceed (s : State) : State :=
  match s.point with
  | .performStep => s.release
  | .schedule => s.schedule
  | _ => s

/-- A timer fires between the calls, and only one that is scheduled. -/
def admits (s : State) : Event → Prop
  | .fire id => s.point = .idle ∧ ∃ timer ∈ s.scheduled, timer.id = id
  | .answer _ => s.point = .callback
  | .proceed => s.point = .performStep ∨ s.point = .schedule

instance (s : State) : ∀ e : Event, Decidable (s.admits e)
  | .fire id => inferInstanceAs (Decidable (s.point = .idle ∧ ∃ timer ∈ s.scheduled, timer.id = id))
  | .answer _ => inferInstanceAs (Decidable (s.point = .callback))
  | .proceed => inferInstanceAs (Decidable (s.point = .performStep ∨ s.point = .schedule))

end State

/-- A `RungTimer` that is kept alive. -/
def rungTimer : EventSystem State Event where
  init s := ∃ now timeouts callback, s = start now timeouts callback
  admits := State.admits
  step s
    | .fire id => s.fire id
    | .answer again => s.answer again
    | .proceed => s.proceed

instance (s : State) (e : Event) : Decidable (rungTimer.admits s e) :=
  inferInstanceAs (Decidable (s.admits e))

/-! ### What has been climbed -/

/-- The end of the first `k` timeouts. -/
def rungAt (now : ℤ) (timeouts : List ℤ) (k : ℕ) : ℤ := now + (timeouts.take k).sum

theorem rungAt_succ {now : ℤ} {timeouts rest : List ℤ} {k : ℕ} {frontTimeout : ℤ}
    (h : timeouts.drop k = frontTimeout :: rest) :
    rungAt now timeouts (k + 1) = rungAt now timeouts k + frontTimeout := by
  have htake : timeouts.take (k + 1) = timeouts.take k ++ [frontTimeout] := by
    rw [List.take_add, h]
    rfl
  rw [rungAt, rungAt, htake, List.sum_append, List.sum_singleton, add_assoc]

/-- Where a `RungTimer` with `k` callbacks behind it can be. -/
inductive Rung (now : ℤ) (timeouts : List ℤ) (s : State) : ℕ → Prop
  /-- It is about to take the next timeout. -/
  | stepping {k : ℕ} (hpoint : s.point = .performStep ∨ s.point = .schedule) (hle : k ≤ timeouts.length)
      (hscheduled : s.scheduled = []) (htimeouts : s.timeouts = timeouts.drop k)
      (hnow : s.now = rungAt now timeouts k) (hanswers : s.answers = List.replicate k true) :
      Rung now timeouts s k
  /-- The next timer is going to fire. -/
  | waiting {k : ℕ} {timer : Timer} (hpoint : s.point = .idle) (hlt : k < timeouts.length)
      (hscheduled : s.scheduled = [timer]) (htimeouts : s.timeouts = timeouts.drop (k + 1))
      (hfireAt : timer.fireAt = rungAt now timeouts (k + 1))
      (hanswers : s.answers = List.replicate k true) : Rung now timeouts s k
  /-- The last callback has not answered yet. -/
  | asking {k : ℕ} (hpoint : s.point = .callback) (hlt : k < timeouts.length)
      (hscheduled : s.scheduled = []) (htimeouts : s.timeouts = timeouts.drop (k + 1)) (hnow : s.now = rungAt now timeouts (k + 1))
      (hanswers : s.answers = List.replicate k true) : Rung now timeouts s (k + 1)
  /-- All timeouts are over. -/
  | climbed (hpoint : s.point = .idle) (hscheduled : s.scheduled = [])
      (hanswers : s.answers = List.replicate timeouts.length true) : Rung now timeouts s timeouts.length
  /-- The last callback has answered that it is the last. -/
  | refused {k : ℕ} (hpoint : s.point = .idle) (hlt : k < timeouts.length)
      (hscheduled : s.scheduled = []) (hanswers : s.answers = List.replicate k true ++ [false]) : Rung now timeouts s (k + 1)

/-- The callbacks have been called at the ends of the first timeouts. -/
def Inv (now : ℤ) (timeouts : List ℤ) (s : State) : Prop :=
  s.callback = true ∧ ∃ k, s.callbacks = (List.range k).map (fun i => rungAt now timeouts (i + 1)) ∧
    Rung now timeouts s k

theorem start_inv (now : ℤ) (timeouts : List ℤ) : Inv now timeouts (start now timeouts true) := by
  refine ⟨rfl, 0, rfl, .stepping (.inl rfl) (Nat.zero_le _) rfl rfl ?_ rfl⟩
  exact (add_zero now).symm

section

variable {now : ℤ} {timeouts : List ℤ} {s : State}

theorem fire_inv (h : Inv now timeouts s) {id : ℕ} (ha : s.admits (.fire id)) :
    Inv now timeouts (s.fire id) := by
  obtain ⟨hcallback, k, hcallbacks, hrung⟩ := h
  obtain ⟨hidle, timer, hmem, rfl⟩ := ha
  cases hrung with
  | stepping hpoint => rcases hpoint with hpoint | hpoint <;> cases hidle.symm.trans hpoint
  | asking hpoint => cases hidle.symm.trans hpoint
  | climbed _ hscheduled => rw [hscheduled] at hmem; cases hmem
  | refused _ _ hscheduled => rw [hscheduled] at hmem; cases hmem
  | @waiting k timer' hpoint hlt hscheduled htimeouts hfireAt hanswers =>
    rw [hscheduled, List.mem_singleton] at hmem
    subst hmem
    have hfind : s.scheduled.find? (·.id = timer.id) = some timer := by rw [hscheduled]; simp
    have hleft : s.scheduled.filter (·.id ≠ timer.id) = [] := by rw [hscheduled]; simp
    rw [State.fire, hfind]
    simp only [hcallback, if_true, hleft]
    refine ⟨rfl, k + 1, ?_, .asking rfl hlt rfl htimeouts hfireAt hanswers⟩
    simp [hcallbacks, List.range_succ, hfireAt]

theorem answer_inv (h : Inv now timeouts s) {again : Bool} (ha : s.admits (.answer again)) :
    Inv now timeouts (s.answer again) := by
  obtain ⟨hcallback, k, hcallbacks, hrung⟩ := h
  have hpoint' : s.point = .callback := ha
  cases hrung with
  | stepping hpoint => rcases hpoint with hpoint | hpoint <;> cases hpoint'.symm.trans hpoint
  | waiting hpoint => cases hpoint'.symm.trans hpoint
  | climbed hpoint => cases hpoint'.symm.trans hpoint
  | refused hpoint => cases hpoint'.symm.trans hpoint
  | @asking k _ hlt hscheduled htimeouts hnow hanswers =>
    refine ⟨hcallback, k + 1, hcallbacks, ?_⟩
    cases again with
    | true =>
      refine .stepping (.inl rfl) hlt hscheduled htimeouts hnow ?_
      rw [State.answer, hanswers, List.replicate_succ']
    | false => exact .refused rfl hlt hscheduled (by rw [State.answer, hanswers])

theorem proceed_inv (h : Inv now timeouts s) (ha : s.admits .proceed) : Inv now timeouts s.proceed := by
  obtain ⟨hcallback, k, hcallbacks, hrung⟩ := h
  have hpoint' : s.point = .performStep ∨ s.point = .schedule := ha
  cases hrung with
  | waiting hpoint => rw [hpoint] at hpoint'; rcases hpoint' with h | h <;> cases h
  | asking hpoint => rw [hpoint] at hpoint'; rcases hpoint' with h | h <;> cases h
  | climbed hpoint => rw [hpoint] at hpoint'; rcases hpoint' with h | h <;> cases h
  | refused hpoint => rw [hpoint] at hpoint'; rcases hpoint' with h | h <;> cases h
  | stepping _ hle hscheduled htimeouts hnow hanswers =>
    rcases hpoint' with hpoint | hpoint
    · refine ⟨?_, k, ?_, ?_⟩ <;> rw [State.proceed, hpoint]
      · exact hcallback
      · exact hcallbacks
      · refine .stepping (.inr rfl) hle ?_ htimeouts hnow hanswers
        rw [State.release, hscheduled, List.filter_nil]
    · have hproceed : s.proceed = s.schedule := by rw [State.proceed, hpoint]
      rw [hproceed, State.schedule]
      rcases htop : s.timeouts with _ | ⟨frontTimeout, rest⟩
      · rw [htop] at htimeouts
        obtain rfl : k = timeouts.length := Nat.le_antisymm hle (List.drop_eq_nil_iff.mp htimeouts.symm)
        exact ⟨hcallback, timeouts.length, hcallbacks, .climbed rfl hscheduled hanswers⟩
      · rw [htop] at htimeouts
        have hlt : k < timeouts.length := by
          have hlength := congrArg List.length htimeouts
          rw [List.length_cons, List.length_drop] at hlength
          omega
        have hrest : rest = timeouts.drop (k + 1) := by rw [← List.tail_drop, ← htimeouts, List.tail_cons]
        have hfireAt : s.now + frontTimeout = rungAt now timeouts (k + 1) := by
          rw [rungAt_succ htimeouts.symm, hnow]
        have hnext : s.scheduled ++ [⟨s.nextId, frontTimeout, s.now + frontTimeout⟩] =
            [⟨s.nextId, frontTimeout, s.now + frontTimeout⟩] := by rw [hscheduled, List.nil_append]
        exact ⟨hcallback, k, hcallbacks, .waiting rfl hlt hnext hrest hfireAt hanswers⟩

/-- **What one step keeps.** -/
theorem step_inv (h : Inv now timeouts s) : ∀ e : Event, s.admits e →
    Inv now timeouts (rungTimer.step s e)
  | .fire _, ha => fire_inv h ha
  | .answer _, ha => answer_inv h ha
  | .proceed, ha => proceed_inv h ha

/-! ### A `RungTimer` comes to its end -/

/-- How much there is to do at a point of the code. -/
def Point.rank : Point → ℕ
  | .idle => 0
  | .schedule => 1
  | .performStep => 2
  | .callback => 3

/-- Each timeout is taken, fires, and is answered. -/
def left (s : State) : ℕ := 4 * (s.timeouts.length + s.scheduled.length) + s.point.rank

theorem left_fire_lt {id : ℕ} (ha : s.admits (.fire id)) : left (s.fire id) < left s := by
  obtain ⟨hidle, timer, hmem, rfl⟩ := ha
  have hlt : (s.scheduled.filter (·.id ≠ timer.id)).length < s.scheduled.length :=
    List.length_filter_lt_length_iff_exists.mpr ⟨timer, hmem, by simp⟩
  obtain ⟨timer', hfind⟩ : ∃ timer', s.scheduled.find? (·.id = timer.id) = some timer' :=
    Option.isSome_iff_exists.mp (List.find?_isSome.mpr ⟨timer, hmem, by simp⟩)
  rw [State.fire, hfind]
  dsimp only
  split
  · simp only [left, hidle, Point.rank]
    omega
  · simp only [left, hidle, Point.rank]
    omega

theorem left_answer_lt {again : Bool} (ha : s.admits (.answer again)) :
    left (s.answer again) < left s := by
  have hpoint : s.point = .callback := ha
  cases again with
  | true => simp [left, State.answer, hpoint, Point.rank]
  | false => simp [left, State.answer, hpoint, Point.rank]

theorem left_proceed_lt (ha : s.admits .proceed) : left s.proceed < left s := by
  rcases ha with hpoint | hpoint
  · have hle := List.length_filter_le (fun timer : Timer => s.currentTimer ≠ some timer.id) s.scheduled
    have hproceed : s.proceed = s.release := by rw [State.proceed, hpoint]
    rw [hproceed]
    simp only [left, State.release, hpoint, Point.rank]
    omega
  · have hproceed : s.proceed = s.schedule := by rw [State.proceed, hpoint]
    rw [hproceed, State.schedule]
    rcases htimeouts : s.timeouts with _ | ⟨frontTimeout, rest⟩
    · simp [left, htimeouts, hpoint, Point.rank]
    · simp only [left, htimeouts, hpoint, Point.rank, List.length_append, List.length_cons,
        List.length_nil]
      omega

theorem left_step_lt : ∀ e : Event, s.admits e → left (rungTimer.step s e) < left s
  | .fire _, ha => left_fire_lt ha
  | .answer _, ha => left_answer_lt ha
  | .proceed, ha => left_proceed_lt ha

theorem pending_le_one (h : Inv now timeouts s) : s.scheduled.length ≤ 1 := by
  obtain ⟨-, k, -, hrung⟩ := h
  cases hrung with
  | waiting _ _ hscheduled => rw [hscheduled]; exact Nat.le_refl 1
  | stepping _ _ hscheduled => rw [hscheduled]; exact Nat.zero_le 1
  | asking _ _ hscheduled => rw [hscheduled]; exact Nat.zero_le 1
  | climbed _ hscheduled => rw [hscheduled]; exact Nat.zero_le 1
  | refused _ _ hscheduled => rw [hscheduled]; exact Nat.zero_le 1

theorem getElem_callbacks (h : Inv now timeouts s) {k : ℕ} (hk : k < s.callbacks.length) :
    s.callbacks[k] = now + (timeouts.take (k + 1)).sum := by
  obtain ⟨-, n, hcallbacks, -⟩ := h
  simp only [hcallbacks, List.getElem_map, List.getElem_range]
  rfl

/-- After an answer `false` nothing happens, and it has been the only one. -/
theorem stopped_of_refused (h : Inv now timeouts s) (hfalse : false ∈ s.answers) :
    s.answers = List.replicate (s.callbacks.length - 1) true ++ [false] ∧
      s.answers.length = s.callbacks.length ∧ ∀ e, ¬ s.admits e := by
  have htrue : ∀ k, s.answers ≠ List.replicate k true := fun k he => by
    rw [he] at hfalse
    cases (List.mem_replicate.mp hfalse).2
  obtain ⟨-, k, hcallbacks, hrung⟩ := h
  cases hrung with
  | stepping _ _ _ _ _ hanswers => exact absurd hanswers (htrue _)
  | waiting _ _ _ _ _ hanswers => exact absurd hanswers (htrue _)
  | asking _ _ _ _ _ hanswers => exact absurd hanswers (htrue _)
  | climbed _ _ hanswers => exact absurd hanswers (htrue _)
  | @refused k hpoint _ hscheduled hanswers =>
    have hlength : s.callbacks.length = k + 1 := by rw [hcallbacks, List.length_map, List.length_range]
    refine ⟨by rw [hlength, hanswers]; rfl, by rw [hlength, hanswers]; simp, fun e ha => ?_⟩
    cases e with
    | fire id =>
      obtain ⟨-, timer, hmem, -⟩ := ha
      rw [hscheduled] at hmem
      cases hmem
    | answer again => cases hpoint.symm.trans ha
    | proceed => rcases ha with ha | ha <;> cases hpoint.symm.trans ha

/-- Where nothing can happen and all answers were `true`, all timeouts are over. -/
theorem callbacks_length_of_stopped (h : Inv now timeouts s) (htrue : false ∉ s.answers)
    (hstop : ∀ e, ¬ s.admits e) : s.callbacks.length = timeouts.length := by
  obtain ⟨-, k, hcallbacks, hrung⟩ := h
  have hlength : s.callbacks.length = k := by rw [hcallbacks, List.length_map, List.length_range]
  rw [hlength]
  cases hrung with
  | stepping hpoint => exact absurd hpoint (hstop .proceed)
  | @waiting _ timer hpoint _ hscheduled =>
    exact absurd ⟨hpoint, timer, by rw [hscheduled]; exact List.mem_singleton_self timer, rfl⟩
      (hstop (.fire timer.id))
  | asking hpoint => exact absurd hpoint (hstop (.answer true))
  | climbed => rfl
  | refused _ _ _ hanswers => rw [hanswers] at htrue; simp at htrue

end

/-- **The ladder is climbed once.** -/
theorem climbs_once (now : ℤ) (timeouts : List ℤ) (es : List Event)
    (h : rungTimer.Run anyEvent (start now timeouts true) es) :
    let s := rungTimer.exec (start now timeouts true) es
    s.scheduled.length ≤ 1 ∧
    (∀ (k : ℕ) (hk : k < s.callbacks.length), s.callbacks[k] = now + (timeouts.take (k + 1)).sum) ∧
    (false ∈ s.answers → s.answers = List.replicate (s.callbacks.length - 1) true ++ [false] ∧
      s.answers.length = s.callbacks.length ∧ ∀ e, ¬ s.admits e) ∧
    (false ∉ s.answers → (∀ e, ¬ s.admits e) → s.callbacks.length = timeouts.length) ∧
    es.length ≤ 4 * timeouts.length + 2 := by
  have hinv : Inv now timeouts (rungTimer.exec (start now timeouts true) es) :=
    h.inv (start_inv now timeouts) fun _ e hu ha _ => step_inv hu e ha
  have hlength : es.length ≤ left (start now timeouts true) :=
    h.length_le fun _ e ha _ => left_step_lt e ha
  exact ⟨pending_le_one hinv, fun _ hk => getElem_callbacks hinv hk, stopped_of_refused hinv,
    callbacks_length_of_stopped hinv, hlength⟩

/-- Two timeouts, and the second callback does not want to be called again. -/
theorem climbs_once_refused :
    let s := rungTimer.exec (start 0 [10, 20] true)
      [.proceed, .proceed, .fire 0, .answer true, .proceed, .proceed, .fire 1, .answer false]
    s.scheduled.length ≤ 1 ∧
    (∀ (k : ℕ) (hk : k < s.callbacks.length), s.callbacks[k] = 0 + ([10, 20].take (k + 1)).sum) ∧
    (false ∈ s.answers → s.answers = List.replicate (s.callbacks.length - 1) true ++ [false] ∧
      s.answers.length = s.callbacks.length ∧ ∀ e, ¬ s.admits e) ∧
    (false ∉ s.answers → (∀ e, ¬ s.admits e) → s.callbacks.length = [10, 20].length) ∧
    8 ≤ 4 * [10, 20].length + 2 :=
  climbs_once 0 [10, 20]
    [.proceed, .proceed, .fire 0, .answer true, .proceed, .proceed, .fire 1, .answer false]
    (by decide +kernel)

/-! ### As the friends screen holds it -/

/-- What is left of the ladder, and the timer that is going to fire. -/
def view (s : State) : RungTimer where
  timeouts := s.timeouts.map Int.toNat
  currentTimer := s.scheduled.head?.map (·.timeInterval.toNat)

/-- `performStep`, from its first statement on. -/
def steps : List Event := [.proceed, .proceed]

/-- `performStep` in one step, where no other timer is scheduled. -/
theorem view_steps {s : State} (hpoint : s.point = .performStep) (hscheduled : s.scheduled = []) :
    rungTimer.Run anyEvent s steps ∧ (rungTimer.exec s steps).point = .idle ∧
      view (rungTimer.exec s steps) = (view s).performStep := by
  have hrelease : rungTimer.step s .proceed = s.release := by
    show s.proceed = s.release
    rw [State.proceed, hpoint]
  have hschedule : rungTimer.exec s steps = s.release.schedule := by
    rw [steps, exec_cons, exec_cons, exec_nil, hrelease]
    rfl
  have hnone : s.release.scheduled = [] := by rw [State.release, hscheduled, List.filter_nil]
  refine ⟨⟨⟨.inl hpoint, trivial⟩, ⟨.inr ?_, trivial⟩, trivial⟩, ?_⟩
  · rw [hrelease]
    rfl
  · rw [hschedule, State.schedule]
    rcases htimeouts : s.timeouts with _ | ⟨frontTimeout, rest⟩
    · have htop : s.release.timeouts = [] := htimeouts
      simp [htop, view, hnone, htimeouts, RungTimer.performStep]
    · have htop : s.release.timeouts = frontTimeout :: rest := htimeouts
      simp [htop, view, hnone, htimeouts, RungTimer.performStep]

theorem view_start (now : ℤ) (timeouts : List ℤ) (callback : Bool) :
    view (rungTimer.exec (start now timeouts callback) steps) =
      RungTimer.start (timeouts.map Int.toNat) :=
  (view_steps rfl rfl).2.2

/-- **A timer that fires**, its callback, and what comes of the answer. -/
theorem view_rung {s : State} {timer : Timer} (hidle : s.point = .idle) (hcallback : s.callback = true)
    (hscheduled : s.scheduled = [timer]) (again : Bool) :
    let es := .fire timer.id :: .answer again :: if again then steps else []
    rungTimer.Run anyEvent s es ∧ (rungTimer.exec s es).point = .idle ∧
      view (rungTimer.exec s es) = (view s).fired again := by
  have hfire : rungTimer.step s (.fire timer.id) =
      { s with
        now := timer.fireAt
        scheduled := []
        point := .callback
        callbacks := s.callbacks ++ [timer.fireAt] } := by
    show s.fire timer.id = _
    simp [State.fire, hscheduled, hcallback]
  have hadmits : rungTimer.admits s (.fire timer.id) :=
    ⟨hidle, timer, by rw [hscheduled]; exact List.mem_singleton_self timer, rfl⟩
  intro es
  cases again with
  | true =>
    have hsteps := @view_steps (rungTimer.step (rungTimer.step s (.fire timer.id)) (.answer true))
      rfl (by rw [hfire]; rfl)
    refine ⟨⟨⟨hadmits, trivial⟩, ⟨by rw [hfire]; rfl, trivial⟩, hsteps.1⟩, hsteps.2.1, ?_⟩
    refine hsteps.2.2.trans ?_
    rw [hfire]
    rfl
  | false =>
    refine ⟨⟨⟨hadmits, trivial⟩, ⟨by rw [hfire]; rfl, trivial⟩, trivial⟩, rfl, ?_⟩
    show view (rungTimer.step (rungTimer.step s (.fire timer.id)) (.answer false)) = _
    rw [hfire]
    rfl

end RungLadder
end Horo
