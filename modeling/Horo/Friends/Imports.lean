/-
# When a page of friends is imported

Most steps touch neither the table of persons nor the persons in memory:
`Silent`. A page that is delivered to the callback of the home page or of a
page of friends is imported: `Lists`. `listing_step` says that all other steps
begin a request or deliver a detail page, and that no page of friends is
awaited after them.

* `stale_of_reach`: a page that the web view would not deliver again has
  nothing to reset.
-/
import Horo.Friends.Updating

namespace Horo
namespace Friends

open Lib PersonDao

/-! ### Silent steps -/

/-- The persons and the table stay as they are, and what is awaited has been
awaited before. -/
structure Silent (s s' : State) : Prop where
  persons : s'.persons.map PersonObject.person = s.persons.map PersonObject.person
  table : s'.table = s.table
  callback : s'.provider.callback = s.provider.callback
  completion : s'.web.webViewDidLoadCompletion = s.web.webViewDidLoadCompletion ∧
      s'.web.cachedPageContent = s.web.cachedPageContent ∨
    s'.web.webViewDidLoadCompletion = none

namespace Silent

variable {s s' s'' : State}

theorem refl (s : State) : Silent s s := ⟨rfl, rfl, rfl, Or.inl ⟨rfl, rfl⟩⟩

theorem trans (h : Silent s s') (h' : Silent s' s'') : Silent s s'' where
  persons := h'.persons.trans h.persons
  table := h'.table.trans h.table
  callback := h'.callback.trans h.callback
  completion := by
    rcases h'.completion with ⟨hset', hcached'⟩ | hnone'
    · rcases h.completion with ⟨hset, hcached⟩ | hnone
      · exact Or.inl ⟨hset'.trans hset, hcached'.trans hcached⟩
      · exact Or.inr (hset'.trans hnone)
    · exact Or.inr hnone'

theorem setWeb {f : WebView → WebView}
    (h : (f s.web).webViewDidLoadCompletion = s.web.webViewDidLoadCompletion ∧
        (f s.web).cachedPageContent = s.web.cachedPageContent ∨
      (f s.web).webViewDidLoadCompletion = none) : Silent s (s.setWeb f) :=
  { refl s with completion := h }

theorem setProvider {f : Provider → Provider} (h : (f s.provider).callback = s.provider.callback) :
    Silent s (s.setProvider f) :=
  { refl s with callback := h }

theorem setUpdating (i : ℕ) (b : Bool) (s : State) : Silent s (setUpdating i b s) :=
  { refl s with
    persons := by
      apply List.ext_getElem?
      intro j
      unfold Friends.setUpdating
      simp only [List.getElem?_map, List.getElem?_modify]
      rcases s.persons[j]? with _ | o
      · rfl
      · show some _ = some o.person
        split <;> rfl }

theorem cancelRequest (s : State) : Silent s (cancelRequest s) := by
  unfold Friends.cancelRequest
  split
  · exact setWeb (Or.inl ⟨rfl, rfl⟩)
  · exact refl s

theorem cancelOperation (type : CancelTypes) (s : State) : Silent s (cancelOperation type s) := by
  unfold Friends.cancelOperation
  simp only
  split
  · rename_i i _
    have hcleared : Silent (Friends.setUpdating i false (Friends.cancelRequest s))
        { Friends.setUpdating i false (Friends.cancelRequest s) with currentPerson := none } :=
      { refl _ with }
    exact (cancelRequest s).trans ((setUpdating i false _).trans hcleared)
  · exact cancelRequest s

/-- A person that is refused, or completed already. -/
theorem personSelected {i : ℕ} (h : ¬ ∃ o, Starts i o s) : Silent s (personSelected i s) := by
  unfold Friends.personSelected
  rcases ho : s.persons[i]? with _ | o
  · exact refl s
  · simp only
    rcases hstatus : o.person.status with _ | _ | _ | _
    · exact refl s
    · simp only
      split
      · exact refl s
      · rename_i hbusy
        have hcurrent : s.currentPerson = none ∨ s.currentPerson = some i := by
          by_contra hne
          rw [not_or] at hne
          exact hbusy hne
        have hurl : o.person.personUrl = "" := by
          by_contra hurl
          exact h ⟨o, ho, hstatus, hcurrent, hurl⟩
        have hcurrent' : Silent s { s with currentPerson := some i } := { refl s with }
        have hset := hcurrent'.trans (setUpdating i true { s with currentPerson := some i })
        unfold updateUserInformationForPerson personUpdated
        simp only [if_pos hurl, Bool.false_eq_true, if_false]
        have hdone := hset.trans (setUpdating i false _)
        split
        · exact { hdone with }
        · exact hdone
    · exact { refl s with }
    · exact refl s

theorem serviceMessage (s : State) : Silent s (serviceMessage s) := by
  unfold Friends.serviceMessage
  split
  · exact setProvider rfl
  · exact refl s

theorem showDialog (s : State) : Silent s (showDialog s) :=
  (serviceMessage s).trans (setWeb (Or.inl ⟨rfl, rfl⟩))

theorem toggleDialog (needsShowDialog : Bool) (s : State) :
    Silent s (toggleDialog needsShowDialog s) := by
  unfold Friends.toggleDialog
  split
  · exact showDialog s
  · split
    · exact (serviceMessage s).trans (setWeb (Or.inl ⟨rfl, rfl⟩))
    · exact refl s

theorem respond (needsShowDialog samePath inWindow : Bool) (s : State) :
    Silent s (respond s needsShowDialog samePath inWindow) := by
  have hwindow : Silent s (s.setWeb (checkWindow needsShowDialog inWindow)) := by
    obtain ⟨b, hb⟩ := web_checkWindow needsShowDialog inWindow s.web
    apply setWeb
    rw [hb]
    exact Or.inl ⟨rfl, rfl⟩
  refine hwindow.trans ((toggleDialog needsShowDialog _).trans (setWeb ?_))
  unfold WebView.performSuccessCallback
  split <;> exact Or.inl ⟨rfl, rfl⟩

theorem handleResponseWithURL (url : List Char) (force samePath inWindow : Bool) (s : State) :
    Silent s (handleResponseWithURL url force samePath inWindow s) := by
  rw [handleResponseWithURL_eq]
  split
  · exact refl s
  · exact respond _ _ _ s

theorem didFinishNavigation (navigation : ℕ) (url : List Char) (samePath inWindow : Bool) (s : State) :
    Silent s (didFinishNavigation navigation url samePath inWindow s) := by
  unfold Friends.didFinishNavigation
  simp only
  split
  · exact Silent.trans (setWeb (Or.inl ⟨rfl, rfl⟩)) (handleResponseWithURL _ _ _ _ _)
  · exact handleResponseWithURL _ _ _ _ s

theorem didFailProvisionalNavigation (navigation : ℕ) (s : State) :
    Silent s (didFailProvisionalNavigation navigation s) := by
  unfold Friends.didFailProvisionalNavigation
  split
  · exact setWeb (Or.inl ⟨rfl, rfl⟩)
  · exact refl s

theorem operationDidFinishedWithError (F : Sqlite.Doubles) (s : State) :
    Silent s (operationDidFinishedWithError F s) := by
  unfold Friends.operationDidFinishedWithError
  rw [callCallback_of_ne _ (by nofun)]
  exact refl s

theorem didFailNavigation (F : Sqlite.Doubles) (parsers : Parsers) (navigation : ℕ) (url : List Char)
    (samePath : Bool) (s : State) :
    Silent s (didFailNavigation F parsers navigation url samePath s) := by
  have hended : Silent s (s.setWeb fun w => { w with navigating := false }) :=
    setWeb (Or.inl ⟨rfl, rfl⟩)
  unfold Friends.didFailNavigation
  split
  · exact refl s
  · simp only
    split
    · exact hended
    · split
      · exact hended
      · refine hended.trans (Silent.trans (setWeb ?_) (operationDidFinishedWithError F _))
        exact Or.inr rfl

theorem doCyclic (withNotify samePath : Bool) (s : State) :
    Silent s (s.setWeb (·.doCyclic withNotify samePath)) := by
  apply setWeb
  unfold WebView.doCyclic
  split
  · exact Or.inl ⟨rfl, rfl⟩
  · simp only
    split
    · unfold WebView.performSuccessCallback
      split <;> exact Or.inl ⟨rfl, rfl⟩
    · exact Or.inl ⟨rfl, rfl⟩

end Silent

/-! ### Imports -/

section

variable (F : Sqlite.Doubles) (parsers : Parsers)

/-- The completion of the friends has been called with these friends, if it is
set; the next page is requested unless it throws. -/
structure Lists (friends : Json.Value) (s s' : State) : Prop where
  table : s'.table = if s.provider.callback then
    FriendsManager.friendsLoaded F friends .partialResult s.table else s.table
  persons : s'.persons = s.persons ∨ ∃ found, readFacebookFriends F s'.table = some found ∧
    s'.persons = s.persons ++ found.map fun p => ⟨p, false⟩
  callback : s'.provider.callback = s.provider.callback
  completion : s'.web.webViewDidLoadCompletion = some .friendsPage ∧ ¬ Throws F friends s ∨
    s'.web.webViewDidLoadCompletion = none ∧ Throws F friends s

variable {F} {parsers} {s s' : State}

theorem persons_callCallback (friends : Json.Value) (s : State) :
    (callCallback F friends .partialResult s).1.table = (if s.provider.callback then
        FriendsManager.friendsLoaded F friends .partialResult s.table else s.table) ∧
      ((callCallback F friends .partialResult s).1.persons = s.persons ∨
        ∃ found, readFacebookFriends F (callCallback F friends .partialResult s).1.table = some found ∧
          (callCallback F friends .partialResult s).1.persons =
            s.persons ++ found.map fun p => ⟨p, false⟩) := by
  unfold callCallback friendsLoaded
  split
  · rw [if_pos rfl]
    simp only
    split
    · split
      · rename_i found hfound
        exact ⟨rfl, Or.inr ⟨found, hfound, rfl⟩⟩
      · exact ⟨rfl, Or.inl rfl⟩
    · exact ⟨rfl, Or.inl rfl⟩
  · exact ⟨rfl, Or.inl rfl⟩

variable (F parsers) in
/-- The home page is followed by the first page of friends. -/
theorem lists_home {r : Reply} (hcompletion : s.web.webViewDidLoadCompletion = some .home)
    (hr : Delivers s r) : Lists F .null s (evaluated F parsers r s) ∧
      ((evaluated F parsers r s).web.webViewDidLoadCompletion = some .friendsPage →
        (evaluated F parsers r s).web.cachedPageContent = none) := by
  obtain ⟨text, -, hs⟩ := evaluated_of_delivers F parsers hcompletion hr
  let s₁ := (taken text s).setProvider fun q =>
    { q with responseTimeoutTimer := none, serviceBlock := false }
  have hs₁ : evaluated F parsers r s =
      executeFriendsPageRequest F "/friends/center/friends/".toList s₁ := hs
  have hthrows : Throws F .null s₁ ↔ Throws F .null s := Iff.rfl
  obtain ⟨htable, hpersons⟩ := persons_callCallback (F := F) .null s₁
  obtain ⟨hweb, hprovider, -⟩ := callCallback_frame (F := F) .null .partialResult s₁
  have hcallback : (callCallback F .null .partialResult s₁).1.provider.callback =
      s.provider.callback := by rw [hprovider]; rfl
  rw [hs₁]
  unfold executeFriendsPageRequest
  rw [if_neg (by decide)]
  simp only
  by_cases hloaded : (callCallback F .null .partialResult s₁).2 = true
  · rw [if_pos hloaded]
    have hno : ¬ Throws F .null s := by
      rw [← hthrows, ← callCallback_partial, hloaded]
      nofun
    exact ⟨⟨htable, hpersons, hcallback, Or.inl ⟨rfl, hno⟩⟩, fun _ => rfl⟩
  · rw [if_neg hloaded]
    have hdoes : Throws F .null s := by
      rw [← hthrows, ← callCallback_partial]
      exact eq_false_of_ne_true hloaded
    have hnone := congrArg WebView.webViewDidLoadCompletion hweb
    refine ⟨⟨htable, hpersons, hcallback, Or.inr ⟨hnone, hdoes⟩⟩, ?_⟩
    intro hset
    rw [hnone] at hset
    cases hset

variable (F parsers) in
/-- A page of friends is followed by the next one. -/
theorem lists_friendsPage {r : Reply} (hcompletion : s.web.webViewDidLoadCompletion = some .friendsPage)
    (hr : Delivers s r) : ∃ text, r.object = some text ∧
      Lists F (parsers.friends text) s (evaluated F parsers r s) ∧
      (evaluated F parsers r s).web.cachedPageContent = some text := by
  obtain ⟨text, htext, hs⟩ := evaluated_of_delivers F parsers hcompletion hr
  have hs₁ : evaluated F parsers r s = parseFriendsPage F parsers text (taken text s) := hs
  have hthrows : Throws F (parsers.friends text) (taken text s) ↔ Throws F (parsers.friends text) s :=
    Iff.rfl
  obtain ⟨htable, hpersons⟩ := persons_callCallback (F := F) (parsers.friends text) (taken text s)
  obtain ⟨hweb, hprovider, -⟩ :=
    callCallback_frame (F := F) (parsers.friends text) .partialResult (taken text s)
  have hcallback : (callCallback F (parsers.friends text) .partialResult
      (taken text s)).1.provider.callback = s.provider.callback := by rw [hprovider]; rfl
  have hcached := congrArg WebView.cachedPageContent hweb
  refine ⟨text, htext, ?_⟩
  rw [hs₁]
  unfold parseFriendsPage
  simp only
  by_cases hloaded : (callCallback F (parsers.friends text) .partialResult (taken text s)).2 = true
  · rw [if_pos hloaded]
    have hno : ¬ Throws F (parsers.friends text) s := by
      rw [← hthrows, ← callCallback_partial, hloaded]
      nofun
    exact ⟨⟨htable, hpersons, hcallback, Or.inl ⟨rfl, hno⟩⟩, hcached⟩
  · rw [if_neg hloaded]
    have hdoes : Throws F (parsers.friends text) s := by
      rw [← hthrows, ← callCallback_partial]
      exact eq_false_of_ne_true hloaded
    have hnone := congrArg WebView.webViewDidLoadCompletion hweb
    exact ⟨⟨htable, hpersons, hcallback, Or.inr ⟨hnone, hdoes⟩⟩, hcached⟩

/-! ### All steps -/

/-- The user asks for another page. -/
def StartsRequest (s : State) : Event → Prop
  | .personSelected i => ∃ o, Starts i o s
  | .updateFriendsFromFacebook => True
  | _ => False

/-- What an admitted event can do to the persons and the table. -/
inductive Listing (s s' : State) : Event → Prop
  | silent {e : Event} (h : Silent s s') : Listing s s' e
  | home (r : Reply) (hcompletion : s.web.webViewDidLoadCompletion = some .home) (hr : Delivers s r) :
      Listing s s' (.evaluated r)
  | friendsPage (r : Reply) (hcompletion : s.web.webViewDidLoadCompletion = some .friendsPage)
      (hr : Delivers s r) : Listing s s' (.evaluated r)
  | details {e : Event} (hdetails : StartsRequest s e ∨ e = .timerFired ∨
        s.web.webViewDidLoadCompletion = some .userDetail)
      (h : s'.web.webViewDidLoadCompletion ≠ some .friendsPage) : Listing s s' e

theorem completion_personSelected {i : ℕ} {o : PersonObject} (h : Starts i o s) :
    (personSelected i s).web.webViewDidLoadCompletion = some .userDetail := by
  have hfree : ¬ (s.currentPerson ≠ none ∧ s.currentPerson ≠ some i) := by
    rintro ⟨hset, hother⟩
    exact h.currentPerson.elim hset hother
  unfold personSelected updateUserInformationForPerson
  rw [h.person]
  simp only [h.status, if_neg hfree, if_neg h.personUrl]
  exact (requested_requestUserInformation _ _ _).1.completion

theorem completion_timerFired (hpending : s.retryPending = true) :
    (timerFired s).web.webViewDidLoadCompletion ≠ some .friendsPage := by
  obtain ⟨retry, t, ht⟩ := exists_of_retryPending hpending
  rw [timerFired_eq s ht]
  cases retry with
  | home =>
    show some Callback.home ≠ some .friendsPage
    simp
  | userDetail path =>
    show some Callback.userDetail ≠ some .friendsPage
    simp

variable (F parsers) in
theorem listing_evaluated (hpaired : Paired s) (r : Reply) :
    Listing s (evaluated F parsers r s) (.evaluated r) := by
  by_cases h : s.web.webViewDidLoadCompletion = none ∨ ¬ Delivers s r
  · obtain ⟨w, hs, -, -, -, -, hcompletion⟩ := evaluated_of_not_delivers F parsers h
    have hweb : Silent s (s.setWeb fun _ => w) := Silent.setWeb hcompletion
    exact .silent (hs ▸ hweb)
  · rw [not_or, not_not] at h
    obtain ⟨hset, hr⟩ := h
    rcases hcompletion : s.web.webViewDidLoadCompletion with _ | _ | _ | _
    · exact absurd hcompletion hset
    · exact .home r hcompletion hr
    · exact .friendsPage r hcompletion hr
    · obtain ⟨i, o, text, birthday, -, -, hd⟩ := hpaired.delivered F parsers hcompletion hr
      refine .details (Or.inr (Or.inr hcompletion)) ?_
      rw [hd.web]
      show none ≠ some Callback.friendsPage
      simp

variable (F parsers) in
theorem listing_step (hpaired : Paired s) (e : Event) (ha : admits s e) :
    Listing s (step F parsers s e) e := by
  cases e with
  | personSelected i =>
    by_cases hstarts : ∃ o, Starts i o s
    · refine .details (Or.inl hstarts) ?_
      obtain ⟨o, hstart⟩ := hstarts
      show (personSelected i s).web.webViewDidLoadCompletion ≠ _
      rw [completion_personSelected hstart]
      simp
    · exact .silent (Silent.personSelected hstarts)
  | updateFriendsFromFacebook =>
    refine .details (Or.inl trivial) ?_
    show some Callback.home ≠ some .friendsPage
    simp
  | cancelOperation type => exact .silent (Silent.cancelOperation type s)
  | decidePolicyForNavigationResponse url samePath inWindow =>
    exact .silent (Silent.handleResponseWithURL _ _ _ _ s)
  | didFinishNavigation navigation url samePath inWindow =>
    exact .silent (Silent.didFinishNavigation _ _ _ _ s)
  | didFailNavigation navigation url samePath =>
    exact .silent (Silent.didFailNavigation F parsers _ _ _ s)
  | didFailProvisionalNavigation navigation =>
    exact .silent (Silent.didFailProvisionalNavigation navigation s)
  | evaluated r => exact listing_evaluated F parsers hpaired r
  | timerFired => exact .details (Or.inr (Or.inl rfl)) (completion_timerFired ha)
  | doCyclicCallback samePath =>
    have hweb : Silent s (s.setWeb fun w => { w with doCyclicScheduled := false }) :=
      Silent.setWeb (Or.inl ⟨rfl, rfl⟩)
    exact .silent (hweb.trans (Silent.doCyclic true samePath _))
  | finishSwiping =>
    have hweb : Silent s (s.setWeb fun w => { w with finishSwipingScheduled := false }.finishSwiping) :=
      Silent.setWeb (Or.inl ⟨rfl, rfl⟩)
    exact .silent hweb
  | dialogWillDisappear =>
    have hweb : Silent s (s.setWeb fun w => { w with dialogPresented := false }) :=
      Silent.setWeb (Or.inl ⟨rfl, rfl⟩)
    exact .silent hweb
  | debugButtonTapped => exact .silent (Silent.showDialog s)

/-! ### The page that has been imported last -/

variable (F parsers) in
/-- A page of friends that the web view has delivered, and would not deliver
again, resets nobody. -/
def Stale (s : State) : Prop :=
  s.provider.callback = true → s.web.webViewDidLoadCompletion = some .friendsPage →
    ∀ text, s.web.cachedPageContent = some text →
      ¬ FriendsManager.Resets F (parsers.friends text) s.table

theorem stale_step (hpaired : Paired s) (h : Stale F parsers s) (e : Event) (ha : admits s e) :
    Stale F parsers (step F parsers s e) := by
  intro hcallback hcompletion text hcached
  cases listing_step F parsers hpaired e ha with
  | silent hs =>
    rcases hs.completion with ⟨hsame, hcontent⟩ | hnone
    · rw [hs.table]
      exact h (hs.callback ▸ hcallback) (hsame ▸ hcompletion) text (hcontent ▸ hcached)
    · rw [hnone] at hcompletion
      cases hcompletion
  | home r hhome hr =>
    have hnone := (lists_home F parsers hhome hr).2 hcompletion
    cases hnone.symm.trans hcached
  | friendsPage r hpage hr =>
    obtain ⟨text', -, hlists, hcontent⟩ := lists_friendsPage F parsers hpage hr
    obtain rfl : text' = text := Option.some.inj (hcontent.symm.trans hcached)
    have htable := hlists.table
    rw [if_pos (hlists.callback ▸ hcallback)] at htable
    rw [show (step F parsers s (.evaluated r)).table = _ from htable]
    exact FriendsManager.not_resets_friendsLoaded
  | details _ hne => exact absurd hcompletion hne

theorem stale_of_reach (h : (system F parsers).Reach EventSystem.anyEvent s) : Stale F parsers s := by
  have hboth : Paired s ∧ Stale F parsers s := by
    refine h.inv (P := fun t => Paired t ∧ Stale F parsers t) ?_ fun t e ht ha _ =>
      ⟨paired_step ht.1 e ha, stale_step ht.1 ht.2 e ha⟩
    rintro _ ⟨table, friends, -, rfl⟩
    refine ⟨paired_initial table friends, fun hcallback => ?_⟩
    cases hcallback
  exact hboth.2

end

end Friends
end Horo
