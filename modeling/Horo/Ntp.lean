/-
# The server time

`src/ios/NtpObjc`. `NtpCC` keeps one callback, whoever asks: a request replaces
what an earlier one left there, and the slot is emptied when the callback has
returned, whatever the callback has put there itself. The times that are handed
over are left out.

* `answered_once_iff`: where no timeout, query or block is left, every callback
  has been called exactly once if and only if no request came while another one
  waited and no callback asked for the time itself.
-/
import Horo.Lib.Reach
import Mathlib.Data.List.Nodup
import Mathlib.Logic.Function.Iterate

namespace Horo
namespace Ntp

open Lib Lib.EventSystem

/-! ### The program -/

/-- `NtpCC`, and what the platform keeps for it. -/
structure NtpCC where
  /-- `callback_`. -/
  callback : Option ℕ
  hasError : Bool
  /-- `timeout` is to be performed after the delay. -/
  timeoutPending : Bool
  /-- The time queries without a report. -/
  queries : ℕ
  /-- The blocks of `timeout` in the main queue. -/
  blocks : ℕ
  /-- The callbacks passed in, numbered from 0. -/
  requested : ℕ
  /-- The callbacks called, the last one first. -/
  called : List ℕ
  deriving DecidableEq, Repr

/-- It cancels the timeout there is. -/
def subscribeForTimeout (s : NtpCC) : NtpCC := { s with timeoutPending := true }

def sendTimeQuery (s : NtpCC) : NtpCC := { s with queries := s.queries + 1 }

/-- The callback is a new one at every request. -/
def getServerTimeWithCompletion (s : NtpCC) : NtpCC :=
  let s := { s with callback := some s.requested, requested := s.requested + 1 }
  if s.hasError then { s with blocks := s.blocks + 1 }
  else sendTimeQuery (subscribeForTimeout s)

/-- `if (callback_)`: the callback is called, in which it asks for the time
`asks` times, and then the slot is emptied. -/
def callCallback (asks : ℕ) (s : NtpCC) : NtpCC :=
  match s.callback with
  | some callback =>
    { getServerTimeWithCompletion^[asks] { s with called := callback :: s.called } with
      callback := none }
  | none => s

/-- `NtpCC::timeout`. -/
def timeout (asks : ℕ) (s : NtpCC) : NtpCC := callCallback asks { s with hasError := true }

/-- The report of `NtpObjc` cancels the timeout, `NtpCC` calls back. -/
def reportFromDelegate (asks : ℕ) (s : NtpCC) : NtpCC :=
  callCallback asks { s with timeoutPending := false }

/-! ### Runs -/

inductive Event
  /-- A prediction model asks. -/
  | getServerTime
  | report (asks : ℕ)
  /-- A query remains without a report. -/
  | lost
  /-- The delay is over. -/
  | timeout (asks : ℕ)
  /-- A block is taken from the main queue. -/
  | block (asks : ℕ)
  deriving DecidableEq, Repr

def step (s : NtpCC) : Event → NtpCC
  | .getServerTime => getServerTimeWithCompletion s
  | .report asks => reportFromDelegate asks { s with queries := s.queries - 1 }
  | .lost => { s with queries := s.queries - 1 }
  | .timeout asks => timeout asks { s with timeoutPending := false }
  | .block asks => timeout asks { s with blocks := s.blocks - 1 }

/-- A query is reported once at most. -/
def admits (s : NtpCC) : Event → Prop
  | .getServerTime => True
  | .report _ | .lost => 0 < s.queries
  | .timeout _ => s.timeoutPending = true
  | .block _ => 0 < s.blocks

def initial : NtpCC :=
  { callback := none, hasError := false, timeoutPending := false, queries := 0, blocks := 0,
    requested := 0, called := [] }

def shared : EventSystem NtpCC Event where
  init s := s = initial
  admits := admits
  step := step

instance (s : NtpCC) (e : Event) : Decidable (shared.admits s e) := by
  cases e <;> simp only [shared, admits] <;> infer_instance

/-! ### What is claimed -/

/-- Nothing is left that could call back. -/
structure Quiet (s : NtpCC) : Prop where
  timeoutPending : s.timeoutPending = false
  queries : s.queries = 0
  blocks : s.blocks = 0

/-- Every callback has been called exactly once. -/
def AnsweredOnce (s : NtpCC) : Prop := ∀ callback < s.requested, s.called.count callback = 1

/-- The request of the event finds the slot empty, and the callback that the
event calls, if there is one, does not ask itself. -/
def Alone (s : NtpCC) : Event → Prop
  | .getServerTime => s.callback = none
  | .lost => True
  | .report asks | .timeout asks | .block asks => s.callback = none ∨ asks = 0

instance (s : NtpCC) (e : Event) : Decidable (Alone s e) := by
  cases e <;> simp only [Alone] <;> infer_instance

/-! ### What a request and a call do -/

section Fields

variable (s : NtpCC)

@[simp] theorem getServerTime_callback :
    (getServerTimeWithCompletion s).callback = some s.requested := by
  unfold getServerTimeWithCompletion
  simp only
  split <;> rfl

@[simp] theorem getServerTime_requested :
    (getServerTimeWithCompletion s).requested = s.requested + 1 := by
  unfold getServerTimeWithCompletion
  simp only
  split <;> rfl

@[simp] theorem getServerTime_called : (getServerTimeWithCompletion s).called = s.called := by
  unfold getServerTimeWithCompletion
  simp only
  split <;> rfl

/-- A request leaves a timeout or a block behind. -/
theorem getServerTime_waits : (getServerTimeWithCompletion s).timeoutPending = true ∨
    0 < (getServerTimeWithCompletion s).blocks := by
  unfold getServerTimeWithCompletion
  simp only
  split
  · exact .inr (Nat.succ_pos _)
  · exact .inl rfl

@[simp] theorem iterate_requested : ∀ asks : ℕ,
    (getServerTimeWithCompletion^[asks] s).requested = s.requested + asks
  | 0 => rfl
  | asks + 1 => by
    rw [Function.iterate_succ_apply', getServerTime_requested, iterate_requested asks]
    omega

@[simp] theorem iterate_called : ∀ asks : ℕ,
    (getServerTimeWithCompletion^[asks] s).called = s.called
  | 0 => rfl
  | asks + 1 => by
    rw [Function.iterate_succ_apply', getServerTime_called, iterate_called asks]

variable {s}

theorem callCallback_none (h : s.callback = none) (asks : ℕ) : callCallback asks s = s := by
  simp [callCallback, h]

/-- The slot is empty after a call. -/
@[simp] theorem callCallback_callback (asks : ℕ) : (callCallback asks s).callback = none := by
  unfold callCallback
  split
  · rfl
  · assumption

theorem callCallback_called {callback : ℕ} (h : s.callback = some callback) (asks : ℕ) :
    (callCallback asks s).called = callback :: s.called := by
  simp [callCallback, h]

theorem callCallback_requested {callback : ℕ} (h : s.callback = some callback) (asks : ℕ) :
    (callCallback asks s).requested = s.requested + asks := by
  simp [callCallback, h]

end Fields

/-! ### What a step does -/

/-- What a step does to the callbacks: it is a request, it calls none, or it
calls the one there is. -/
inductive Effect (s : NtpCC) : Event → NtpCC → Prop
  | request {s'} : s'.callback = some s.requested → s'.requested = s.requested + 1 →
      s'.called = s.called → s'.timeoutPending = true ∨ 0 < s'.blocks →
      Effect s .getServerTime s'
  | idle {e s'} : Alone s e → s'.callback = s.callback → s'.requested = s.requested →
      s'.called = s.called →
      s'.callback = none ∨ (s'.timeoutPending = s.timeoutPending ∧ s'.blocks = s.blocks) →
      Effect s e s'
  | call {e s'} (callback asks : ℕ) : s.callback = some callback → (Alone s e ↔ asks = 0) →
      s'.callback = none → s'.requested = s.requested + asks → s'.called = callback :: s.called →
      Effect s e s'

/-- An event that calls back, on a state that differs from `s` in what the
platform keeps. -/
theorem effect_callCallback {s t : NtpCC} {e : Event} {asks : ℕ}
    (hcallback : t.callback = s.callback) (hrequested : t.requested = s.requested)
    (hcalled : t.called = s.called) (he : Alone s e ↔ s.callback = none ∨ asks = 0) :
    Effect s e (callCallback asks t) := by
  cases h : s.callback with
  | none =>
    rw [callCallback_none (hcallback.trans h)]
    exact .idle (he.mpr (.inl h)) hcallback hrequested hcalled (.inl (hcallback.trans h))
  | some callback =>
    have ht := hcallback.trans h
    refine .call callback asks h ?_ (callCallback_callback asks) ?_ ?_
    · rw [he, h]
      simp
    · rw [callCallback_requested ht, hrequested]
    · rw [callCallback_called ht, hcalled]

theorem effect_step (s : NtpCC) (e : Event) : Effect s e (step s e) := by
  cases e with
  | getServerTime =>
    exact .request (getServerTime_callback s) (getServerTime_requested s) (getServerTime_called s)
      (getServerTime_waits s)
  | lost => exact .idle trivial rfl rfl rfl (.inr ⟨rfl, rfl⟩)
  | report asks => exact effect_callCallback rfl rfl rfl Iff.rfl
  | timeout asks => exact effect_callCallback rfl rfl rfl Iff.rfl
  | block asks => exact effect_callCallback rfl rfl rfl Iff.rfl

/-! ### No callback is called twice -/

/-- The callbacks called are different ones and the one in the slot is not
among them. -/
structure Good (s : NtpCC) : Prop where
  slot : ∀ callback, s.callback = some callback →
    callback < s.requested ∧ callback ∉ s.called
  called : ∀ callback ∈ s.called, callback < s.requested
  nodup : s.called.Nodup

theorem good_initial : Good initial :=
  ⟨fun _ h => (by cases h), fun _ h => absurd h List.not_mem_nil, List.nodup_nil⟩

theorem Good.step {s : NtpCC} (h : Good s) (e : Event) : Good (step s e) := by
  have hfx := effect_step s e
  generalize Ntp.step s e = s' at hfx
  cases hfx with
  | request hcallback hrequested hcalled _ =>
    refine ⟨fun c hc => ?_, fun c hc => ?_, hcalled ▸ h.nodup⟩
    · obtain rfl : s.requested = c := Option.some.inj (hcallback.symm.trans hc)
      refine ⟨by omega, fun hmem => ?_⟩
      have hlt := h.called _ (hcalled ▸ hmem)
      omega
    · have hlt := h.called c (hcalled ▸ hc)
      omega
  | idle _ hcallback hrequested hcalled _ =>
    refine ⟨fun c hc => ?_, fun c hc => ?_, hcalled ▸ h.nodup⟩
    · rw [hrequested, hcalled]
      exact h.slot c (hcallback ▸ hc)
    · rw [hrequested]
      exact h.called c (hcalled ▸ hc)
  | call callback asks hslot _ hcallback hrequested hcalled =>
    obtain ⟨hlt, hnew⟩ := h.slot callback hslot
    refine ⟨fun c hc => ?_, fun c hc => ?_, hcalled ▸ List.nodup_cons.mpr ⟨hnew, h.nodup⟩⟩
    · rw [hcallback] at hc
      cases hc
    · rw [hcalled] at hc
      rcases List.mem_cons.mp hc with rfl | hc
      · omega
      · have hlt' := h.called c hc
        omega

/-- Where none is called twice, a callback is called once if it is called. -/
theorem answeredOnce_iff {s : NtpCC} (h : Good s) :
    AnsweredOnce s ↔ ∀ callback < s.requested, callback ∈ s.called := by
  constructor
  · intro ha callback hlt
    have hcount := ha callback hlt
    exact List.count_pos_iff.mp (by omega)
  · intro ha callback hlt
    exact List.count_eq_one_of_mem h.nodup (ha callback hlt)

/-! ### Which callbacks are never called -/

/-- A callback has been lost: it has neither been called nor is it in the slot. -/
def Dropped (s : NtpCC) : Prop :=
  ∃ callback < s.requested, callback ∉ s.called ∧ s.callback ≠ some callback

/-- What is lost remains so. -/
theorem Dropped.step {s : NtpCC} (h : Dropped s) (e : Event) : Dropped (step s e) := by
  obtain ⟨c, hlt, hnew, hslot⟩ := h
  have hfx := effect_step s e
  generalize Ntp.step s e = s' at hfx
  cases hfx with
  | request hcallback hrequested hcalled _ =>
    refine ⟨c, by omega, hcalled ▸ hnew, fun hc => ?_⟩
    obtain rfl : s.requested = c := Option.some.inj (hcallback.symm.trans hc)
    omega
  | idle _ hcallback hrequested hcalled _ =>
    exact ⟨c, hrequested ▸ hlt, hcalled ▸ hnew, hcallback ▸ hslot⟩
  | call callback asks hcall _ hcallback hrequested hcalled =>
    refine ⟨c, by omega, fun hc => ?_, fun hc => ?_⟩
    · rw [hcalled] at hc
      rcases List.mem_cons.mp hc with rfl | hc
      · exact hslot hcall
      · exact hnew hc
    · rw [hcallback] at hc
      cases hc

/-- A request that is not alone loses a callback: the one in the slot, or the
first one that the callback itself asks with. -/
theorem dropped_of_not_alone {s : NtpCC} (hg : Good s) {e : Event} (h : ¬ Alone s e) :
    Dropped (step s e) := by
  have hfx := effect_step s e
  generalize Ntp.step s e = s' at hfx
  cases hfx with
  | request hcallback hrequested hcalled _ =>
    obtain ⟨c, hc⟩ := Option.ne_none_iff_exists'.mp h
    obtain ⟨hlt, hnew⟩ := hg.slot c hc
    refine ⟨c, by omega, hcalled ▸ hnew, fun hc' => ?_⟩
    obtain rfl : s.requested = c := Option.some.inj (hcallback.symm.trans hc')
    omega
  | idle halone _ _ _ _ => exact absurd halone h
  | call callback asks hcall halone hcallback hrequested hcalled =>
    have hpos : asks ≠ 0 := fun h0 => h (halone.mpr h0)
    have hlt := (hg.slot callback hcall).1
    refine ⟨s.requested, by omega, fun hmem => ?_, fun hc => ?_⟩
    · rw [hcalled] at hmem
      rcases List.mem_cons.mp hmem with rfl | hmem
      · omega
      · have hlt' := hg.called _ hmem
        omega
    · rw [hcallback] at hc
      cases hc

/-! ### Which callbacks are called -/

/-- None is lost, and for the one in the slot a timeout or a block is left. -/
structure Waiting (s : NtpCC) : Prop where
  answered : ∀ callback < s.requested, callback ∈ s.called ∨ s.callback = some callback
  pending : s.callback = none ∨ s.timeoutPending = true ∨ 0 < s.blocks

theorem waiting_initial : Waiting initial := ⟨fun _ h => absurd h (Nat.not_lt_zero _), .inl rfl⟩

theorem Waiting.step {s : NtpCC} (h : Waiting s) {e : Event} (he : Alone s e) :
    Waiting (step s e) := by
  have hfx := effect_step s e
  generalize Ntp.step s e = s' at hfx
  cases hfx with
  | request hcallback hrequested hcalled hpending =>
    refine ⟨fun c hc => ?_, .inr hpending⟩
    have hempty : s.callback = none := he
    by_cases hlast : c = s.requested
    · exact .inr (hlast ▸ hcallback)
    · rcases h.answered c (by omega) with hmem | hslot
      · exact .inl (hcalled ▸ hmem)
      · rw [hempty] at hslot
        cases hslot
  | idle _ hcallback hrequested hcalled hpending =>
    refine ⟨fun c hc => ?_, ?_⟩
    · rw [hcallback, hcalled]
      exact h.answered c (hrequested ▸ hc)
    · rcases hpending with hnone | ⟨htimeout, hblocks⟩
      · exact .inl hnone
      · rw [hcallback, htimeout, hblocks]
        exact h.pending
  | call callback asks hcall halone hcallback hrequested hcalled =>
    have hzero := halone.mp he
    refine ⟨fun c hc => .inl ?_, .inl hcallback⟩
    rw [hcalled]
    rcases h.answered c (by omega) with hmem | hslot
    · exact List.mem_cons_of_mem _ hmem
    · obtain rfl : callback = c := Option.some.inj (hcall.symm.trans hslot)
      exact List.mem_cons_self

/-! ### The theorem -/

/-- **When every request is answered.** In a state without a pending timeout,
query or block, every callback passed in has been called exactly once if and
only if each request of the run came alone. -/
theorem answered_once_iff {es : List Event} (hr : shared.Run anyEvent initial es)
    (hquiet : Quiet (shared.exec initial es)) :
    AnsweredOnce (shared.exec initial es) ↔ shared.Run Alone initial es := by
  have hgood : Good (shared.exec initial es) :=
    hr.inv good_initial fun _ e h _ _ => h.step e
  rw [answeredOnce_iff hgood]
  constructor
  · intro h
    have hkept : ¬ Dropped (shared.exec initial es) := fun ⟨c, hlt, hnew, _⟩ => hnew (h c hlt)
    exact run_of_not_broken (M := shared) (fun _ e h _ => h.step e)
      (fun _ _ hg _ hnot => dropped_of_not_alone hg hnot) (fun _ e _ _ hd => hd.step e)
      good_initial hr hkept
  · intro h c hlt
    have hwaiting : Waiting (shared.exec initial es) :=
      h.inv waiting_initial fun _ _ hw _ he => hw.step he
    have hempty : (shared.exec initial es).callback = none := by
      rcases hwaiting.pending with hnone | htimeout | hblocks
      · exact hnone
      · rw [hquiet.timeoutPending] at htimeout
        cases htimeout
      · rw [hquiet.blocks] at hblocks
        exact absurd hblocks (Nat.lt_irrefl 0)
    rcases hwaiting.answered c hlt with hmem | hslot
    · exact hmem
    · rw [hempty] at hslot
      cases hslot

/-- A request that is answered by its report, and two after a timeout. -/
def oneByOne : List Event :=
  [.getServerTime, .report 0, .getServerTime, .timeout 0, .getServerTime, .report 0, .block 0]

theorem oneByOne_answered : AnsweredOnce (shared.exec initial oneByOne) :=
  (answered_once_iff (by decide) ⟨by decide, by decide, by decide⟩).mpr (by decide)

/-- Two models ask before the first report: the first is never answered. -/
theorem first_of_two_dropped :
    shared.Run anyEvent initial [.getServerTime, .getServerTime, .report 0, .report 0] ∧
      Quiet (shared.exec initial [.getServerTime, .getServerTime, .report 0, .report 0]) ∧
      ¬ AnsweredOnce (shared.exec initial [.getServerTime, .getServerTime, .report 0, .report 0]) := by
  refine ⟨by decide, ⟨by decide, by decide, by decide⟩, fun h => ?_⟩
  have hfirst := h 0 (by decide)
  exact absurd hfirst (by decide)

end Ntp
end Horo
