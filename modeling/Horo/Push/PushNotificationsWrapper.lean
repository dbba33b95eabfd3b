/-
# The wrapper of the push SDK

`src/swift/PushNotificationsWrapper.swift`, with the calls it has made to the
SDK and the blocks it has dispatched. The SDK applies every call once, between
the call and its completion, and completes every call once.

* `interests_eq_iff_heeded`: whatever happened before the last request, the
  device ends with the interests of that request exactly when the steps since
  then heed it: no other room is subscribed after the last `unsubscribeAll`,
  and no `unsubscribeAll` comes after the last subscription.
-/
import Mathlib.Data.Finset.Insert
import Horo.Lib.Reach

namespace Horo
namespace Push

open Lib Lib.EventSystem

/-! ### The wrapper and the SDK -/

/-- What the application asks of the wrapper. -/
inductive Request
  | subscribeToRoom (roomName : String)
  | unsubscribe
  deriving DecidableEq, Repr

/-- The calls of the SDK. `unsubscribeAll` is called in two places:
`subscribing` when its completion goes on to subscribe. -/
inductive Call
  | registerDeviceToken (deviceToken : List UInt8)
  | unsubscribeAll (subscribing : Bool)
  | subscribe (interest : String)
  deriving DecidableEq, Repr

/-- The properties of `PushNotificationsWrapper`. -/
structure Wrapper where
  delayedRoomName : String
  isRegistered : Bool
  needsSubscribe : Bool
  subscribedToRoom : String
  deriving DecidableEq, Repr

structure State where
  wrapper : Wrapper
  /-- The blocks of `performSubscription` in the main queue: they are all alike. -/
  dispatched : ℕ
  /-- The calls the SDK has not applied yet. -/
  calls : List Call
  /-- The calls applied, whose completion has not run. -/
  applied : List Call
  /-- The interests of the device. -/
  interests : Finset String
  deriving DecidableEq

def State.call (s : State) (c : Call) : State := { s with calls := s.calls ++ [c] }

def registered (deviceToken : List UInt8) (s : State) : State :=
  s.call (.registerDeviceToken deviceToken)

def performSubscription (s : State) : State :=
  if s.wrapper.isRegistered = false then s
  else { s with wrapper := { s.wrapper with needsSubscribe := false },
                dispatched := s.dispatched + 1 }

def subscribeToRoom (roomName : String) (s : State) : State :=
  performSubscription
    { s with wrapper := { s.wrapper with needsSubscribe := true, delayedRoomName := roomName } }

def clean (w : Wrapper) : Wrapper := { w with delayedRoomName := "" }

def handleSubscribedToRoom (roomName : String) (w : Wrapper) : Wrapper :=
  clean { w with subscribedToRoom := roomName }

def performSubscriptionToRoom (roomName : String) (s : State) : State :=
  s.call (.subscribe roomName)

def unsubscribe (s : State) : State := s.call (.unsubscribeAll false)

/-- The block `performSubscription` dispatches. -/
def dispatchedBlock (s : State) : State := s.call (.unsubscribeAll true)

/-- The completion handed over with a call. The room is read when it runs. -/
def completion : Call → State → State
  | .registerDeviceToken _, s =>
    let s := { s with wrapper := { s.wrapper with isRegistered := true } }
    if s.wrapper.needsSubscribe then
      performSubscription { s with wrapper := { s.wrapper with needsSubscribe := false } }
    else s
  | .unsubscribeAll true, s => performSubscriptionToRoom s.wrapper.delayedRoomName s
  | .unsubscribeAll false, s => s
  | .subscribe roomName, s => { s with wrapper := handleSubscribedToRoom roomName s.wrapper }

/-- What a call does to the interests of the device. -/
def Call.apply : Call → Finset String → Finset String
  | .registerDeviceToken _, is => is
  | .unsubscribeAll _, _ => ∅
  | .subscribe interest, is => insert interest is

inductive Event
  | request (q : Request)
  | registered (deviceToken : List UInt8)
  | runDispatched
  | applied (c : Call)
  | completed (c : Call)
  deriving DecidableEq, Repr

def Event.isRequest : Event → Bool
  | .request _ => true
  | _ => false

/-- The event is the main queue's or the SDK's. -/
def Event.isReply : Event → Bool
  | .runDispatched | .applied _ | .completed _ => true
  | _ => false

def Request.perform : Request → State → State
  | .subscribeToRoom roomName => Push.subscribeToRoom roomName
  | .unsubscribe => Push.unsubscribe

def step (s : State) : Event → State
  | .request q => q.perform s
  | .registered deviceToken => registered deviceToken s
  | .runDispatched => dispatchedBlock { s with dispatched := s.dispatched - 1 }
  | .applied c => { s with calls := s.calls.erase c, applied := s.applied ++ [c],
                           interests := c.apply s.interests }
  | .completed c => completion c { s with applied := s.applied.erase c }

def admits (s : State) : Event → Prop
  | .request _ | .registered _ => True
  | .runDispatched => 0 < s.dispatched
  | .applied c => c ∈ s.calls
  | .completed c => c ∈ s.applied

/-- The wrapper after its `init`, on a device with whatever interests earlier
launches have left. -/
def launched (interests : Finset String) : State :=
  { wrapper := ⟨"", false, false, ""⟩, dispatched := 0, calls := [], applied := [],
    interests := interests }

def device : EventSystem State Event where
  init s := ∃ interests, s = launched interests
  admits := admits
  step := step

instance (s : State) (e : Event) : Decidable (device.admits s e) := by
  cases e <;> simp only [device, admits] <;> infer_instance

/-- Nothing is outstanding. -/
def State.Quiescent (s : State) : Prop := s.dispatched = 0 ∧ s.calls = [] ∧ s.applied = []

instance (s : State) : Decidable s.Quiescent := inferInstanceAs (Decidable (_ ∧ _ ∧ _))

/-- The interests a request asks for. -/
def Request.interests : Request → Finset String
  | .subscribeToRoom roomName => {roomName}
  | .unsubscribe => ∅

/-! ### What is still to come -/

def Call.isSubscribe : Call → Bool
  | .subscribe _ => true
  | _ => false

/-- A block of `performSubscription` is in the queue, or will be once the
device is registered. -/
def State.WillDispatch (s : State) : Prop := s.wrapper.needsSubscribe = true ∨ 0 < s.dispatched

/-- An `unsubscribeAll` is still to be applied. -/
def State.WillUnsubscribe (s : State) : Prop :=
  s.WillDispatch ∨ ∃ subscribing, .unsubscribeAll subscribing ∈ s.calls

/-- A subscription is still to be applied. -/
def State.WillSubscribe (s : State) : Prop :=
  s.WillDispatch ∨ .unsubscribeAll true ∈ s.calls ++ s.applied ∨
    ∃ interest, .subscribe interest ∈ s.calls

/-- The request is still to be carried out: its room is kept for a block that
will read it, or its call has not been applied. -/
def State.Pending (s : State) : Request → Prop
  | .subscribeToRoom roomName => .subscribe roomName ∈ s.calls ∨
      s.wrapper.delayedRoomName = roomName ∧
        (s.WillDispatch ∨ .unsubscribeAll true ∈ s.calls ++ s.applied)
  | .unsubscribe => .unsubscribeAll false ∈ s.calls

/-- The state without an outstanding call. -/
def State.without (s : State) (c : Call) : State := { s with calls := s.calls.erase c }

/-- The step does not spoil what `q` asked for: what it subscribes is asked
for, or an `unsubscribeAll` will remove it; and the room asked for, where the
step leaves it unsubscribed, is still to be subscribed. -/
def Heeds (q : Request) (s : State) : Event → Prop
  | .applied (.subscribe x) =>
      (x ∈ q.interests ∨ s.WillUnsubscribe) ∧
        (q.interests ⊆ insert x s.interests ∨ (s.without (.subscribe x)).WillSubscribe)
  | .applied (.unsubscribeAll _) => q.interests = ∅ ∨ s.WillSubscribe
  | _ => True

instance (s : State) : Decidable s.WillDispatch :=
  inferInstanceAs (Decidable (_ ∨ _))

instance (s : State) : ∀ q, Decidable (s.Pending q)
  | .subscribeToRoom _ => inferInstanceAs (Decidable (_ ∨ _ ∧ (_ ∨ _)))
  | .unsubscribe => inferInstanceAs (Decidable (_ ∈ _))

instance (s : State) : Decidable s.WillUnsubscribe :=
  decidable_of_iff (s.WillDispatch ∨ .unsubscribeAll true ∈ s.calls ∨ .unsubscribeAll false ∈ s.calls)
    (by simp [State.WillUnsubscribe, or_comm])

instance (l : List Call) : Decidable (∃ interest, .subscribe interest ∈ l) :=
  decidable_of_iff (l.any Call.isSubscribe = true) (by
    rw [List.any_eq_true]
    constructor
    · rintro ⟨_ | _ | x, hx, h⟩
      · cases h
      · cases h
      · exact ⟨x, hx⟩
    · rintro ⟨x, hx⟩
      exact ⟨_, hx, rfl⟩)

instance (s : State) : Decidable s.WillSubscribe :=
  inferInstanceAs (Decidable (_ ∨ _ ∨ _))

instance (q : Request) (s : State) (e : Event) : Decidable (Heeds q s e) := by
  unfold Heeds
  split <;> infer_instance

/-- What has been subscribed and not asked for will be removed; what was asked
for is subscribed or will be. -/
def Converging (q : Request) (s : State) : Prop :=
  (s.WillUnsubscribe ∨ s.interests ⊆ q.interests) ∧
    (s.WillSubscribe ∨ q.interests ⊆ s.interests)

/-! ### One step

`Converging` is kept by the steps that heed the request, lost by the others,
and not regained without another request. -/

section Steps

variable {q : Request} {s : State}

/-- A request starts converging, whatever is outstanding. -/
theorem converging_request (q : Request) (s : State) : Converging q (step s (.request q)) := by
  rcases q with r | _
  · have hd : (subscribeToRoom r s).WillDispatch := by
      unfold subscribeToRoom performSubscription State.WillDispatch
      split <;> simp
    exact ⟨.inl (.inl hd), .inl (.inl hd)⟩
  · have hu : (unsubscribe s).WillUnsubscribe := .inr ⟨false, by simp [unsubscribe, State.call]⟩
    exact ⟨.inl hu, .inr (Finset.empty_subset _)⟩

theorem converging_registered (t : List UInt8) :
    Converging q (step s (.registered t)) ↔ Converging q s := by
  have hu : (step s (.registered t)).WillUnsubscribe ↔ s.WillUnsubscribe := by
    simp [step, registered, State.call, State.WillUnsubscribe, State.WillDispatch]
  have hs : (step s (.registered t)).WillSubscribe ↔ s.WillSubscribe := by
    simp [step, registered, State.call, State.WillSubscribe, State.WillDispatch]
  have hi : (step s (.registered t)).interests = s.interests := rfl
  unfold Converging
  rw [hu, hs, hi]

/-- A dispatched block leads to an `unsubscribeAll` and then a subscription. -/
theorem converging_runDispatched (ha : device.admits s .runDispatched) :
    Converging q (step s .runDispatched) ↔ Converging q s := by
  have hd : s.WillDispatch := .inr ha
  have hmem : Call.unsubscribeAll true ∈ (step s .runDispatched).calls := by
    simp [step, dispatchedBlock, State.call]
  have hu : (step s .runDispatched).WillUnsubscribe := .inr ⟨true, hmem⟩
  have hs : (step s .runDispatched).WillSubscribe := .inr (.inl (List.mem_append_left _ hmem))
  exact ⟨fun _ => ⟨.inl (.inl hd), .inl (.inl hd)⟩, fun _ => ⟨.inl hu, .inl hs⟩⟩

theorem converging_applied_registerDeviceToken (t : List UInt8) :
    Converging q (step s (.applied (.registerDeviceToken t))) ↔ Converging q s := by
  have hu : (step s (.applied (.registerDeviceToken t))).WillUnsubscribe ↔ s.WillUnsubscribe := by
    simp [step, State.WillUnsubscribe, State.WillDispatch]
  have hs : (step s (.applied (.registerDeviceToken t))).WillSubscribe ↔ s.WillSubscribe := by
    simp [step, State.WillSubscribe, State.WillDispatch]
  have hi : (step s (.applied (.registerDeviceToken t))).interests = s.interests := rfl
  unfold Converging
  rw [hu, hs, hi]

/-- Applying a subscription: both halves of `Heeds` are needed. -/
theorem converging_applied_subscribe {x : String} (ha : device.admits s (.applied (.subscribe x))) :
    Converging q (step s (.applied (.subscribe x))) ↔
      Converging q s ∧ Heeds q s (.applied (.subscribe x)) := by
  have hu : (step s (.applied (.subscribe x))).WillUnsubscribe ↔ s.WillUnsubscribe := by
    simp [step, State.WillUnsubscribe, State.WillDispatch]
  have hs : (step s (.applied (.subscribe x))).WillSubscribe ↔
      (s.without (.subscribe x)).WillSubscribe := by
    simp [step, State.without, State.WillSubscribe, State.WillDispatch]
  have hnow : s.WillSubscribe := .inr (.inr ⟨x, ha⟩)
  have hi : (step s (.applied (.subscribe x))).interests = insert x s.interests := rfl
  unfold Converging Heeds
  rw [hu, hs, hi, Finset.insert_subset_iff]
  tauto

/-- Applying an `unsubscribeAll` takes away whatever was asked for. -/
theorem converging_applied_unsubscribeAll {b : Bool}
    (ha : device.admits s (.applied (.unsubscribeAll b))) :
    Converging q (step s (.applied (.unsubscribeAll b))) ↔
      Converging q s ∧ Heeds q s (.applied (.unsubscribeAll b)) := by
  have hu : s.WillUnsubscribe := .inr ⟨b, ha⟩
  have hs : (step s (.applied (.unsubscribeAll b))).WillSubscribe ↔ s.WillSubscribe := by
    rcases b with _ | _
    · simp [step, State.WillSubscribe, State.WillDispatch]
    · have hmem : Call.unsubscribeAll true ∈ s.calls := ha
      simp [step, State.WillSubscribe, State.WillDispatch, hmem]
  have hi : (step s (.applied (.unsubscribeAll b))).interests = ∅ := rfl
  unfold Converging Heeds
  rw [hs, hi, Finset.subset_empty]
  constructor
  · rintro ⟨-, h⟩
    exact ⟨⟨.inl hu, h.imp_right fun h => by rw [h]; exact Finset.empty_subset _⟩, h.symm⟩
  · rintro ⟨-, h⟩
    exact ⟨.inr (Finset.empty_subset _), h.symm⟩

theorem converging_completed_registerDeviceToken (t : List UInt8) :
    Converging q (step s (.completed (.registerDeviceToken t))) ↔ Converging q s := by
  have hd : (step s (.completed (.registerDeviceToken t))).WillDispatch ↔ s.WillDispatch := by
    unfold step completion performSubscription State.WillDispatch
    by_cases hn : s.wrapper.needsSubscribe = true <;> simp [hn]
  have hc : (step s (.completed (.registerDeviceToken t))).calls = s.calls ∧
      (step s (.completed (.registerDeviceToken t))).applied =
        s.applied.erase (.registerDeviceToken t) ∧
      (step s (.completed (.registerDeviceToken t))).interests = s.interests := by
    unfold step completion performSubscription
    by_cases hn : s.wrapper.needsSubscribe = true <;> simp [hn]
  obtain ⟨hc, happ, hi⟩ := hc
  unfold Converging State.WillUnsubscribe State.WillSubscribe
  rw [hd, hc, happ, hi]
  simp

theorem converging_completed_unsubscribeAll {b : Bool}
    (ha : device.admits s (.completed (.unsubscribeAll b))) :
    Converging q (step s (.completed (.unsubscribeAll b))) ↔ Converging q s := by
  have hi : (step s (.completed (.unsubscribeAll b))).interests = s.interests := by
    rcases b with _ | _ <;> rfl
  have hu : (step s (.completed (.unsubscribeAll b))).WillUnsubscribe ↔ s.WillUnsubscribe := by
    rcases b with _ | _ <;>
      simp [step, completion, performSubscriptionToRoom, State.call, State.WillUnsubscribe,
        State.WillDispatch]
  have hs : (step s (.completed (.unsubscribeAll b))).WillSubscribe ↔ s.WillSubscribe := by
    rcases b with _ | _
    · simp [step, completion, State.WillSubscribe, State.WillDispatch]
    · have hmem : Call.unsubscribeAll true ∈ s.applied := ha
      simp [step, completion, performSubscriptionToRoom, State.call, State.WillSubscribe,
        State.WillDispatch, hmem]
  unfold Converging
  rw [hi, hu, hs]

theorem converging_completed_subscribe (x : String) :
    Converging q (step s (.completed (.subscribe x))) ↔ Converging q s := by
  have hu : (step s (.completed (.subscribe x))).WillUnsubscribe ↔ s.WillUnsubscribe := by
    simp [step, completion, handleSubscribedToRoom, clean, State.WillUnsubscribe,
      State.WillDispatch]
  have hs : (step s (.completed (.subscribe x))).WillSubscribe ↔ s.WillSubscribe := by
    simp [step, completion, handleSubscribedToRoom, clean, State.WillSubscribe,
      State.WillDispatch]
  have hi : (step s (.completed (.subscribe x))).interests = s.interests := rfl
  unfold Converging
  rw [hu, hs, hi]

/-- What a step without a new request does to `Converging`. -/
theorem converging_step {e : Event} (ha : device.admits s e) (he : e.isRequest = false) :
    Converging q (step s e) ↔ Converging q s ∧ Heeds q s e := by
  rcases e with q' | t | _ | c | c
  · cases he
  · simpa [Heeds] using converging_registered t
  · simpa [Heeds] using converging_runDispatched ha
  · rcases c with t | b | x
    · simpa [Heeds] using converging_applied_registerDeviceToken t
    · exact converging_applied_unsubscribeAll ha
    · exact converging_applied_subscribe ha
  · rcases c with t | b | x
    · simpa [Heeds] using converging_completed_registerDeviceToken t
    · simpa [Heeds] using converging_completed_unsubscribeAll ha
    · simpa [Heeds] using converging_completed_subscribe x

end Steps

/-! ### Runs -/

/-- Without another request, a run converges exactly when all of it heeds the
last one. -/
theorem converging_exec_iff {q : Request} : ∀ (es : List Event) (s : State),
    (∀ e ∈ es, e.isRequest = false) → device.Run anyEvent s es →
    (Converging q (device.exec s es) ↔ Converging q s ∧ device.Run (Heeds q) s es)
  | [], s, _, _ => by simp [Run]
  | e :: es, s, he, hr => by
    have hhead := converging_step (q := q) hr.1.1 (he e List.mem_cons_self)
    have hrec := converging_exec_iff (q := q) es (step s e)
      (fun e' h => he e' (List.mem_cons_of_mem _ h)) hr.2
    rw [exec_cons]
    show Converging q (device.exec (step s e) es) ↔ _
    rw [hrec, hhead]
    have hadm := hr.1.1
    simp only [Run, hadm, true_and]
    exact and_assoc

/-- Once the device is registered nothing waits for the registration. -/
theorem step_needsSubscribe {s : State} (e : Event)
    (h : s.wrapper.isRegistered = true → s.wrapper.needsSubscribe = false) :
    (step s e).wrapper.isRegistered = true → (step s e).wrapper.needsSubscribe = false := by
  rcases e with (r | _) | t | _ | c | (t | (_ | _) | x)
  · simp only [step, Request.perform, subscribeToRoom, performSubscription]
    split
    · rename_i hreg
      exact fun h' => absurd h' (by simpa using hreg)
    · exact fun _ => rfl
  · exact h
  · exact h
  · exact h
  · exact h
  · simp only [step, completion, performSubscription]
    split <;> simp_all
  · exact h
  · exact h
  · exact h

theorem run_needsSubscribe {s₀ : State} (h₀ : device.init s₀) (es : List Event)
    (hr : device.Run anyEvent s₀ es) (hreg : (device.exec s₀ es).wrapper.isRegistered = true) :
    (device.exec s₀ es).wrapper.needsSubscribe = false := by
  have hreach : device.ReachFrom anyEvent s₀ (device.exec s₀ es) := ReachFrom.exec es s₀ hr
  refine hreach.inv (P := fun s => s.wrapper.isRegistered = true → s.wrapper.needsSubscribe = false)
    ?_ (fun u e hu _ _ => step_needsSubscribe e hu) hreg
  obtain ⟨is, rfl⟩ := h₀
  exact fun h => Bool.noConfusion h

/-- With nothing outstanding, converging means having arrived. -/
theorem converging_of_quiescent {q : Request} {s : State} (hn : s.wrapper.needsSubscribe = false)
    (hq : s.Quiescent) : Converging q s ↔ s.interests = q.interests := by
  obtain ⟨hd, hc, ha⟩ := hq
  have hu : ¬ s.WillUnsubscribe := by simp [State.WillUnsubscribe, State.WillDispatch, hn, hd, hc]
  have hs : ¬ s.WillSubscribe := by
    simp [State.WillSubscribe, State.WillDispatch, hn, hd, hc, ha]
  unfold Converging
  rw [or_iff_right hu, or_iff_right hs]
  exact ⟨fun h => Finset.Subset.antisymm h.1 h.2, fun h => h ▸ ⟨subset_rfl, subset_rfl⟩⟩

/-! ### The last request -/

/-- **Where the device ends.** A run in which `q` is the last request, and at
whose end the device is registered and nothing is outstanding, leaves the
interests of `q` if and only if every step since the request heeds it. -/
theorem interests_eq_iff_heeded {s₀ : State} (h₀ : device.init s₀) (before after : List Event)
    (q : Request) (hafter : ∀ e ∈ after, e.isRequest = false)
    (hrun : device.Run anyEvent s₀ (before ++ .request q :: after))
    (hreg : (device.exec s₀ (before ++ .request q :: after)).wrapper.isRegistered = true)
    (hquiet : (device.exec s₀ (before ++ .request q :: after)).Quiescent) :
    (device.exec s₀ (before ++ .request q :: after)).interests = q.interests ↔
      device.Run (Heeds q) (device.exec s₀ (before ++ [.request q])) after := by
  have hneeds := run_needsSubscribe h₀ _ hrun hreg
  rw [← converging_of_quiescent hneeds hquiet]
  have hsplit : device.exec s₀ (before ++ .request q :: after) =
      device.exec (device.exec s₀ (before ++ [.request q])) after := by
    simp [EventSystem.exec]
  have hstart : Converging q (device.exec s₀ (before ++ [.request q])) := by
    rw [exec_append]
    exact converging_request q _
  have hrest : device.Run anyEvent (device.exec s₀ (before ++ [.request q])) after := by
    rw [show before ++ .request q :: after = (before ++ [.request q]) ++ after by simp] at hrun
    exact (run_append.mp hrun).2
  rw [hsplit, converging_exec_iff after _ hafter hrest]
  exact and_iff_right hstart

/-- A request before the registration completes, and another one after it. -/
def resubscribed : List Event :=
  [.request (.subscribeToRoom "leo8"), .registered [0], .applied (.registerDeviceToken [0]),
   .completed (.registerDeviceToken [0]), .runDispatched, .applied (.unsubscribeAll true),
   .completed (.unsubscribeAll true), .applied (.subscribe "leo8"), .completed (.subscribe "leo8"),
   .request (.subscribeToRoom "leo9"), .runDispatched, .applied (.unsubscribeAll true),
   .completed (.unsubscribeAll true), .applied (.subscribe "leo9"), .completed (.subscribe "leo9")]

theorem resubscribed_interests : (device.exec (launched ∅) resubscribed).interests = {"leo9"} :=
  (interests_eq_iff_heeded ⟨∅, rfl⟩ (resubscribed.take 9) (resubscribed.drop 10)
    (.subscribeToRoom "leo9") (by decide) (by decide +kernel) (by decide +kernel)
    (by decide +kernel)).mpr (by decide +kernel)

/-- A subscription asked for before the device is registered, and taken back
before it is. -/
def revoked : List Event :=
  [.request (.subscribeToRoom "aries8"), .request .unsubscribe, .applied (.unsubscribeAll false),
   .completed (.unsubscribeAll false), .registered [0], .applied (.registerDeviceToken [0]),
   .completed (.registerDeviceToken [0]), .runDispatched, .applied (.unsubscribeAll true),
   .completed (.unsubscribeAll true), .applied (.subscribe "aries8"),
   .completed (.subscribe "aries8")]

/-- `unsubscribe` leaves `needsSubscribe` set: the registration subscribes. -/
theorem revoked_subscribes :
    device.Run anyEvent (launched ∅) revoked ∧
      (device.exec (launched ∅) revoked).wrapper.isRegistered = true ∧
      (device.exec (launched ∅) revoked).Quiescent ∧
      revoked.filter Event.isRequest =
        [.request (.subscribeToRoom "aries8"), .request .unsubscribe] ∧
      (device.exec (launched ∅) revoked).interests = {"aries8"} ∧
      (device.exec (launched ∅) revoked).interests ≠ Request.unsubscribe.interests := by
  decide +kernel

end Push
end Horo
