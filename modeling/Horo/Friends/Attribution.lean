/-
# Whose page a birthday is from

The completion block of the web view is looked up when the reply to a script
arrives. A reply that comes after another person has been selected is handed
to the request for that person: `attributed_right_iff` says that a birthday
goes to the friend whose page it came from exactly along the runs in which a
reply to a request for details is one of the page that was loaded last.
-/
import Horo.Friends.Pairing

namespace Horo
namespace Friends

open Lib PersonDao

/-- The birthday is from the detail page that is requested for the person. -/
def Right (a : Attribution) : Prop :=
  a.page = some (requestPath (userDetailPath a.person.personUrl.toList))

instance (a : Attribution) : Decidable (Right a) := inferInstanceAs (Decidable (_ = _))

/-- A reply that delivers details is one of the page that was loaded last. -/
def Timely (s : State) : Event → Prop
  | .evaluated r => s.web.webViewDidLoadCompletion = some .userDetail → Delivers s r →
    r.page = some s.web.workingURL
  | _ => True

instance (s : State) : ∀ e : Event, Decidable (Timely s e)
  | .evaluated _ => inferInstanceAs (Decidable (_ → _ → _))
  | .personSelected _ | .updateFriendsFromFacebook | .cancelOperation _
  | .decidePolicyForNavigationResponse _ _ _ | .didFinishNavigation _ _ _ _
  | .didFailNavigation _ _ _ | .didFailProvisionalNavigation _ | .timerFired
  | .doCyclicCallback _ | .finishSwiping | .dialogWillDisappear
  | .debugButtonTapped => inferInstanceAs (Decidable True)

section

variable {F : Sqlite.Doubles} {parsers : Parsers} {s : State}

/-- Only a reply that delivers attributes a birthday. -/
theorem attributions_step (e : Event) (ha : admits s e)
    (hd : ∀ r, e = .evaluated r → s.web.webViewDidLoadCompletion = some .userDetail → ¬ Delivers s r) :
    (step F parsers s e).attributions = s.attributions := by
  cases effect_step F parsers e ha with
  | calm hc => exact hc.attributions
  | opens i o ho hstatus hs => rw [hs]; rfl
  | requests i o hstarts hr hslot hcurrent => exact hr.attributions
  | lists hl => exact hl.attributions
  | retries path t ht hr hslot hcurrent => exact hr.attributions
  | delivers r hcompletion hr => exact absurd hr (hd r rfl hcompletion)

variable (F parsers) in
theorem right_step (h : Paired s) (e : Event) (ha : admits s e) :
    (∀ a ∈ (step F parsers s e).attributions, Right a) ↔
      (∀ a ∈ s.attributions, Right a) ∧ Timely s e := by
  by_cases hd : ∃ r, e = .evaluated r ∧ s.web.webViewDidLoadCompletion = some .userDetail ∧
      Delivers s r
  · obtain ⟨r, rfl, hcompletion, hr⟩ := hd
    obtain ⟨i, o, text, birthday, -, hpath, hdelivered⟩ := h.delivered F parsers hcompletion hr
    have hattributions : (step F parsers s (.evaluated r)).attributions =
        s.attributions ++ [⟨o.person, birthday, r.page⟩] := hdelivered.attributions
    have hright : Right ⟨o.person, birthday, r.page⟩ ↔ Timely s (.evaluated r) := by
      unfold Right Timely
      rw [hpath]
      exact ⟨fun hpage _ _ => hpage, fun htimely => htimely hcompletion hr⟩
    rw [hattributions, List.forall_mem_append, List.forall_mem_singleton, hright]
  · have htimely : Timely s e := by
      cases e with
      | evaluated r => exact fun hcompletion hr => absurd ⟨r, rfl, hcompletion, hr⟩ hd
      | _ => trivial
    rw [attributions_step e ha fun r he hcompletion hr => hd ⟨r, he, hcompletion, hr⟩]
    exact ⟨fun h => ⟨h, htimely⟩, fun h => h.1⟩

theorem right_run {es : List Event} : ∀ {s : State}, Paired s →
    (system F parsers).Run EventSystem.anyEvent s es →
    ((∀ a ∈ ((system F parsers).exec s es).attributions, Right a) ↔
      (∀ a ∈ s.attributions, Right a) ∧ (system F parsers).Run Timely s es) := by
  induction es with
  | nil => exact fun _ _ => ⟨fun h => ⟨h, trivial⟩, fun h => h.1⟩
  | cons e es ih =>
    intro s h hrun
    obtain ⟨⟨ha, -⟩, hrest⟩ := hrun
    have hstep := right_step F parsers h e ha
    calc (∀ a ∈ ((system F parsers).exec s (e :: es)).attributions, Right a)
        ↔ (∀ a ∈ (step F parsers s e).attributions, Right a) ∧
            (system F parsers).Run Timely (step F parsers s e) es := ih (paired_step h e ha) hrest
      _ ↔ ((∀ a ∈ s.attributions, Right a) ∧ Timely s e) ∧
            (system F parsers).Run Timely (step F parsers s e) es := and_congr_left' hstep
      _ ↔ (∀ a ∈ s.attributions, Right a) ∧ (system F parsers).Run Timely s (e :: es) := by
          rw [and_assoc]
          exact and_congr_right' ⟨fun h => ⟨⟨ha, h.1⟩, h.2⟩, fun h => ⟨h.1.2, h.2⟩⟩

/-- Every birthday goes to the friend whose page it came from, exactly if every
reply with details is one of the page that was loaded last. -/
theorem attributed_right_iff {es : List Event} (hinit : (system F parsers).init s)
    (hrun : (system F parsers).Run EventSystem.anyEvent s es) :
    (∀ a ∈ ((system F parsers).exec s es).attributions, Right a) ↔
      (system F parsers).Run Timely s es := by
  obtain ⟨table, friends, -, rfl⟩ := hinit
  rw [right_run (paired_initial table friends) hrun]
  exact ⟨fun h => h.2, fun h => ⟨fun a ha => absurd ha (List.not_mem_nil), h⟩⟩

end

/-! ### A late reply -/

theorem annInTime_right :
    (∀ a ∈ ((system doubles plainParsers).exec annAndBob annInTime).attributions, Right a) ∧
      ((system doubles plainParsers).exec annAndBob annInTime).attributions ≠ [] :=
  ⟨(attributed_right_iff init_annAndBob (by decide +kernel)).mpr (by decide +kernel),
    by decide +kernel⟩

/-- The page of Bob is shown, but Bob is cancelled and Ann selected before the
script has been replied to. -/
def bobTooLate : List Event :=
  [.personSelected 1, .didFinishNavigation 0 bobPage true false,
   .cancelOperation .cancelFriendBirthdayLoad, .personSelected 0,
   .evaluated ⟨some bobPage, some "7.12.1985", bobPage⟩]

/-- Ann is given the birthday of Bob. -/
theorem bobTooLate_wrong : (system doubles plainParsers).init annAndBob ∧
    (system doubles plainParsers).Run EventSystem.anyEvent annAndBob bobTooLate ∧
    ¬ ∀ a ∈ ((system doubles plainParsers).exec annAndBob bobTooLate).attributions, Right a :=
  ⟨init_annAndBob, by decide +kernel, by decide +kernel⟩

end Friends
end Horo
