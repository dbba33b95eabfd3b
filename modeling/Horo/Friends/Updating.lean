/-
# Who is left updating

A person that is updating waits for a navigation, a script, the swiping or a
retry. The ways in which a request for details can end other than by its page
(a failure, a page that is no text, the login, the end of the ladder, a
cancellation of the friends' list) do not call its completion:
`nobodyUpdates_iff` says that nobody is left updating, all along a run, exactly
if no step of it ends the last thing that is in flight in one of these ways.
-/
import Horo.Friends.Pairing

namespace Horo
namespace Friends

open Lib PersonDao

/-! ### What is in flight -/

/-- A web request is in flight, or will be. -/
def Busy (s : State) : Prop :=
  s.web.navigating = true ∨ 0 < s.web.evaluations ∨ s.web.swipingActive = true ∨ s.retryPending = true

instance (s : State) : Decidable (Busy s) := inferInstanceAs (Decidable (_ ∨ _ ∨ _ ∨ _))

structure NobodyUpdates (s : State) : Prop where
  currentPerson : s.currentPerson = none
  persons : ∀ (i : ℕ) (o : PersonObject), s.persons[i]? = some o → o.updating = false

/-- The current person has something to wait for. -/
def Waits (s : State) : Prop := s.currentPerson ≠ none → Busy s

/-- Nothing but this navigation is in flight in the web view. -/
def LastNavigation (navigation : ℕ) (w : WebView) : Prop :=
  (w.navigating = true → navigation = w.currentNavigationRequest) ∧ w.evaluations = 0 ∧
    w.swipingActive = false

/-- The message of a dialog that is shown or hidden drops the timer. -/
def dropsTimer (needsShowDialog inWindow : Bool) (s : State) : Bool :=
  s.web.serviceBlock && s.provider.serviceBlock &&
    ((checkWindow needsShowDialog inWindow s.web).dialogPresented != needsShowDialog)

variable (F : Sqlite.Doubles) (parsers : Parsers)

/-- The completion of the friends throws on a page. -/
def Throws (friends : Json.Value) (s : State) : Prop :=
  s.provider.callback = true ∧ ¬ (FriendsManager.readable friends = true ∧
    (readFacebookFriends F (FriendsManager.friendsLoaded F friends .partialResult s.table)).isSome = true)

/-- A reply that neither completes a person nor begins another request, by the
completion that is set. -/
def Unanswered (s : State) (r : Reply) : Option Callback → Prop
  | none => s.retryPending = false
  | some .userDetail => ¬ Delivers s r ∧ s.retryPending = false
  | some .home => if Delivers s r then Throws F .null s else s.retryPending = false
  | some .friendsPage =>
    s.retryPending = false ∧ (Delivers s r → Throws F (parsers.friends (r.object.getD "")) s)

/-- The event ends the last thing that is in flight, and nobody is told. -/
def Ends (s : State) : Event → Prop
  | .cancelOperation .cancelAllFriendsLoad =>
    s.provider.request = true ∧ s.web.evaluations = 0 ∧ s.retryPending = false
  | .decidePolicyForNavigationResponse url samePath inWindow =>
    s.web.forceDidFinishNavigation = false ∧ (s.web.delegate && webViewDidLoad url) = false ∧
      samePath = false ∧ s.web.navigating = false ∧ s.web.evaluations = 0 ∧
      s.web.swipingActive = false ∧ dropsTimer false inWindow s = true
  | .didFinishNavigation navigation url samePath inWindow =>
    LastNavigation navigation s.web ∧ samePath = false ∧
      (s.retryPending = true → dropsTimer (s.web.delegate && webViewDidLoad url) inWindow s = true)
  | .didFailNavigation navigation _ _ => LastNavigation navigation s.web ∧ s.retryPending = false
  | .didFailProvisionalNavigation navigation =>
    LastNavigation navigation s.web ∧ s.retryPending = false
  | .evaluated r =>
    s.web.evaluations = 1 ∧ s.web.navigating = false ∧ s.web.swipingActive = false ∧
      Unanswered F parsers s r s.web.webViewDidLoadCompletion
  | .finishSwiping => s.web.navigating = false ∧ s.web.evaluations = 0 ∧ s.retryPending = false
  | .debugButtonTapped =>
    s.web.navigating = false ∧ s.web.evaluations = 0 ∧ s.web.swipingActive = false ∧
      s.web.serviceBlock = true ∧ s.provider.serviceBlock = true
  | _ => False

/-- The event leaves the current person behind. -/
def Strands (s : State) (e : Event) : Prop := s.currentPerson ≠ none ∧ Ends F parsers s e

instance (friends : Json.Value) (s : State) : Decidable (Throws F friends s) :=
  inferInstanceAs (Decidable (_ ∧ ¬ (_ ∧ _)))

instance (s : State) (r : Reply) : ∀ completion, Decidable (Unanswered F parsers s r completion)
  | none => inferInstanceAs (Decidable (_ = _))
  | some .userDetail | some .friendsPage => inferInstanceAs (Decidable (_ ∧ _))
  | some .home => inferInstanceAs
      (Decidable (if Delivers s r then Throws F .null s else s.retryPending = false))

instance (navigation : ℕ) (w : WebView) : Decidable (LastNavigation navigation w) :=
  inferInstanceAs (Decidable ((_ → _) ∧ _ ∧ _))

instance (s : State) : ∀ e : Event, Decidable (Ends F parsers s e)
  | .cancelOperation .cancelAllFriendsLoad | .finishSwiping =>
    inferInstanceAs (Decidable (_ ∧ _ ∧ _))
  | .decidePolicyForNavigationResponse _ _ _ =>
    inferInstanceAs (Decidable (_ ∧ _ ∧ _ ∧ _ ∧ _ ∧ _ ∧ _))
  | .didFinishNavigation _ _ _ _ => inferInstanceAs (Decidable (_ ∧ _ ∧ (_ → _)))
  | .didFailNavigation _ _ _ | .didFailProvisionalNavigation _ =>
    inferInstanceAs (Decidable (_ ∧ _))
  | .evaluated _ => inferInstanceAs (Decidable (_ ∧ _ ∧ _ ∧ _))
  | .debugButtonTapped => inferInstanceAs (Decidable (_ ∧ _ ∧ _ ∧ _ ∧ _))
  | .personSelected _ | .updateFriendsFromFacebook | .cancelOperation .cancelFriendBirthdayLoad
  | .timerFired | .doCyclicCallback _ | .dialogWillDisappear =>
    inferInstanceAs (Decidable False)

instance (s : State) (e : Event) : Decidable (Strands F parsers s e) :=
  inferInstanceAs (Decidable (_ ∧ _))

section

variable {F} {parsers} {s s' : State}

theorem waits_iff (h : Paired s) : (¬ Busy s → NobodyUpdates s) ↔ Waits s := by
  constructor
  · intro hclean hcurrent
    by_contra hbusy
    exact hcurrent (hclean hbusy).currentPerson
  · intro hwaits hbusy
    have hcurrent : s.currentPerson = none := by
      by_contra hne
      exact hbusy (hwaits hne)
    refine ⟨hcurrent, fun i o ho => eq_false_of_ne_true fun hupdating => ?_⟩
    have hone := h.oneUpdating i o ho hupdating
    rw [hcurrent] at hone
    cases hone

theorem waits_of_navigating (h : s.web.navigating = true) : Waits s := fun _ => Or.inl h

theorem waits_of_none (h : s.currentPerson = none) : Waits s := fun hne => absurd h hne

/-- An event that does not change who is current. -/
theorem waits_iff_of_same {C : Prop} (hsame : s'.currentPerson = s.currentPerson) (hwaits : Waits s)
    (hbusy : Busy s → (Busy s' ↔ ¬ C)) : Waits s' ↔ ¬ (s.currentPerson ≠ none ∧ C) := by
  by_cases hcurrent : s.currentPerson = none
  · exact ⟨fun _ h => h.1 hcurrent, fun _ => waits_of_none (hsame.trans hcurrent)⟩
  · have hiff := hbusy (hwaits hcurrent)
    constructor
    · intro hw h
      exact hiff.mp (hw (hsame ▸ hcurrent)) h.2
    · intro h _
      exact hiff.mpr fun hC => h ⟨hcurrent, hC⟩

/-! ### The events of the user -/

theorem waits_personSelected (hwaits : Waits s) (i : ℕ) : Waits (personSelected i s) := by
  unfold personSelected
  rcases ho : s.persons[i]? with _ | o
  · exact hwaits
  · simp only
    rcases hstatus : o.person.status with _ | _ | _ | _
    · exact hwaits
    · simp only
      split
      · exact hwaits
      · unfold updateUserInformationForPerson
        split
        · refine waits_of_none ?_
          unfold personUpdated
          exact congrArg State.currentPerson (if_pos rfl)
        · refine waits_of_navigating ?_
          unfold requestUserInformation executeUserDetailPageRequest
          simp only [if_neg (userDetailPath_ne_nil _)]
          rfl
    · exact hwaits
    · exact hwaits

theorem cancelOperation_birthday (s : State) :
    (cancelOperation .cancelFriendBirthdayLoad s).currentPerson = none := by
  unfold cancelOperation
  simp only
  rcases hcurrent : (cancelRequest s).currentPerson with _ | i
  · exact hcurrent
  · rfl

theorem cancelOperation_all (s : State) :
    cancelOperation .cancelAllFriendsLoad s = cancelRequest s := by
  unfold cancelOperation
  rfl

theorem waits_cancelRequest (hwaits : Waits s) :
    Waits (cancelRequest s) ↔ ¬ Strands F parsers s (.cancelOperation .cancelAllFriendsLoad) := by
  unfold cancelRequest
  by_cases hrequest : s.provider.request = true
  · rw [if_pos hrequest]
    refine waits_iff_of_same rfl hwaits fun _ => ?_
    change (false = true ∨ 0 < s.web.evaluations ∨ false = true ∨ s.retryPending = true) ↔
      ¬ (s.provider.request = true ∧ s.web.evaluations = 0 ∧ s.retryPending = false)
    grind
  · rw [if_neg hrequest]
    refine waits_iff_of_same rfl hwaits fun hbusy => ?_
    exact ⟨fun _ hends => hrequest hends.1, fun _ => hbusy⟩

/-! ### The responses and the dialog -/

theorem retryPending_serviceMessage (s : State) : (serviceMessage s).retryPending =
    (s.retryPending && !(s.web.serviceBlock && s.provider.serviceBlock)) := by
  unfold serviceMessage
  by_cases hblocks : (s.web.serviceBlock && s.provider.serviceBlock) = true
  · rw [if_pos hblocks, hblocks, Bool.not_true, Bool.and_false]
    rfl
  · rw [if_neg hblocks, eq_false_of_ne_true hblocks, Bool.not_false, Bool.and_true]

theorem currentPerson_serviceMessage (s : State) :
    (serviceMessage s).currentPerson = s.currentPerson := by
  unfold serviceMessage
  split <;> rfl

theorem retryPending_respond (needsShowDialog samePath inWindow : Bool) (s : State) :
    (respond s needsShowDialog samePath inWindow).retryPending =
      (s.retryPending && !dropsTimer needsShowDialog inWindow s) := by
  let s₁ := s.setWeb (checkWindow needsShowDialog inWindow)
  have hblock : s₁.web.serviceBlock = s.web.serviceBlock := by
    obtain ⟨b, hb⟩ := web_checkWindow needsShowDialog inWindow s.web
    change (checkWindow needsShowDialog inWindow s.web).serviceBlock = _
    rw [hb]
  have hmessage : (serviceMessage s₁).retryPending =
      (s.retryPending && !(s.web.serviceBlock && s.provider.serviceBlock)) := by
    rw [retryPending_serviceMessage, hblock]
    rfl
  change (toggleDialog needsShowDialog s₁).retryPending =
    (s.retryPending && !(s.web.serviceBlock && s.provider.serviceBlock &&
      (s₁.web.dialogPresented != needsShowDialog)))
  unfold toggleDialog
  rcases s₁.web.dialogPresented <;> rcases needsShowDialog
  · simp
    rfl
  · exact hmessage.trans (by simp)
  · exact hmessage.trans (by simp)
  · simp
    rfl

theorem currentPerson_respond (needsShowDialog samePath inWindow : Bool) (s : State) :
    (respond s needsShowDialog samePath inWindow).currentPerson = s.currentPerson := by
  let s₁ := s.setWeb (checkWindow needsShowDialog inWindow)
  change (toggleDialog needsShowDialog s₁).currentPerson = s₁.currentPerson
  unfold toggleDialog
  split
  · exact currentPerson_serviceMessage s₁
  · split
    · exact currentPerson_serviceMessage s₁
    · rfl

/-- A script is in flight after a response from the page that was requested. -/
theorem busy_respond (needsShowDialog samePath inWindow : Bool) (s : State) :
    Busy (respond s needsShowDialog samePath inWindow) ↔
      samePath = true ∨ s.web.navigating = true ∨ 0 < s.web.evaluations ∨
        s.web.swipingActive = true ∨
        (s.retryPending = true ∧ dropsTimer needsShowDialog inWindow s = false) := by
  obtain ⟨b, hweb⟩ := web_respond s needsShowDialog samePath inWindow
  unfold Busy
  rw [hweb, retryPending_respond]
  cases samePath
  · simp [WebView.performSuccessCallback]
  · simp [WebView.performSuccessCallback]

theorem waits_decidePolicy (hwaits : Waits s) (url : List Char) (samePath inWindow : Bool) :
    Waits (handleResponseWithURL url false samePath inWindow s) ↔
      ¬ Strands F parsers s (.decidePolicyForNavigationResponse url samePath inWindow) := by
  rw [handleResponseWithURL_eq]
  split
  · rename_i hignored
    refine waits_iff_of_same rfl hwaits fun hbusy => ⟨fun _ hends => ?_, fun _ => hbusy⟩
    obtain ⟨hforce, hneeds, -⟩ := hends
    rw [hforce, hneeds] at hignored
    cases hignored
  · rename_i hanswered
    rw [Bool.not_false, Bool.true_and, Bool.or_eq_true, not_or, Bool.not_eq_true,
      Bool.not_eq_true] at hanswered
    obtain ⟨hforce, hneeds⟩ := hanswered
    refine waits_iff_of_same (currentPerson_respond _ _ _ s) hwaits fun hbusy => ?_
    rw [busy_respond, hneeds, Bool.eq_false_iff (b := dropsTimer _ _ _)]
    change _ ↔ ¬ (s.web.forceDidFinishNavigation = false ∧
      (s.web.delegate && webViewDidLoad url) = false ∧ samePath = false ∧
      s.web.navigating = false ∧ s.web.evaluations = 0 ∧ s.web.swipingActive = false ∧
      dropsTimer false inWindow s = true)
    unfold Busy at hbusy
    grind

theorem dropsTimer_setNavigating (needsShowDialog inWindow : Bool) (s : State) :
    dropsTimer needsShowDialog inWindow (s.setWeb fun w => { w with navigating := false }) =
      dropsTimer needsShowDialog inWindow s := by
  unfold dropsTimer checkWindow
  change (s.web.serviceBlock && s.provider.serviceBlock && _) = _
  congr 2
  split <;> rfl

theorem waits_didFinishNavigation (hwaits : Waits s) (navigation : ℕ) (url : List Char)
    (samePath inWindow : Bool) :
    Waits (didFinishNavigation navigation url samePath inWindow s) ↔
      ¬ Strands F parsers s (.didFinishNavigation navigation url samePath inWindow) := by
  unfold didFinishNavigation
  simp only [handleResponseWithURL_eq, Bool.not_true, Bool.false_and, Bool.false_eq_true, if_false]
  have hends : Ends F parsers s (.didFinishNavigation navigation url samePath inWindow) ↔
      (((s.web.navigating = true → navigation = s.web.currentNavigationRequest) ∧
        s.web.evaluations = 0 ∧ s.web.swipingActive = false) ∧ samePath = false ∧
        (s.retryPending = true →
          dropsTimer (s.web.delegate && webViewDidLoad url) inWindow s = true)) := Iff.rfl
  by_cases hcurrent : navigation = s.web.currentNavigationRequest
  · rw [if_pos hcurrent]
    refine waits_iff_of_same (currentPerson_respond _ _ _ _) hwaits fun hbusy => ?_
    rw [busy_respond, dropsTimer_setNavigating, hends]
    change (_ ∨ false = true ∨ 0 < s.web.evaluations ∨ s.web.swipingActive = true ∨
      (s.retryPending = true ∧ dropsTimer (s.web.delegate && webViewDidLoad url) inWindow s = false)) ↔ _
    grind
  · rw [if_neg hcurrent]
    refine waits_iff_of_same (currentPerson_respond _ _ _ _) hwaits fun hbusy => ?_
    rw [busy_respond, hends]
    unfold Busy at hbusy
    grind

theorem waits_showDialog (hwaits : Waits s) :
    Waits (showDialog s) ↔ ¬ Strands F parsers s .debugButtonTapped := by
  refine waits_iff_of_same (currentPerson_serviceMessage s) hwaits fun hbusy => ?_
  have hends : Ends F parsers s .debugButtonTapped ↔
      (s.web.navigating = false ∧ s.web.evaluations = 0 ∧ s.web.swipingActive = false ∧
        s.web.serviceBlock = true ∧ s.provider.serviceBlock = true) := Iff.rfl
  have hafter : Busy (showDialog s) ↔ (s.web.navigating = true ∨ 0 < s.web.evaluations ∨
      s.web.swipingActive = true ∨
      (s.retryPending && !(s.web.serviceBlock && s.provider.serviceBlock)) = true) := by
    rw [← retryPending_serviceMessage]
    unfold Busy showDialog State.setWeb
    rw [web_serviceMessage]
    rfl
  rw [hafter, hends]
  unfold Busy at hbusy
  grind

/-! ### The failures -/

variable (F parsers) in
theorem waits_didFailProvisionalNavigation (hwaits : Waits s) (navigation : ℕ) :
    Waits (didFailProvisionalNavigation navigation s) ↔
      ¬ Strands F parsers s (.didFailProvisionalNavigation navigation) := by
  have hends : Ends F parsers s (.didFailProvisionalNavigation navigation) ↔
      (((s.web.navigating = true → navigation = s.web.currentNavigationRequest) ∧
        s.web.evaluations = 0 ∧ s.web.swipingActive = false) ∧ s.retryPending = false) := Iff.rfl
  unfold didFailProvisionalNavigation
  by_cases hcurrent : navigation = s.web.currentNavigationRequest
  · rw [if_pos hcurrent]
    refine waits_iff_of_same rfl hwaits fun _ => ?_
    rw [hends]
    change (false = true ∨ 0 < s.web.evaluations ∨ s.web.swipingActive = true ∨
      s.retryPending = true) ↔ _
    grind
  · rw [if_neg hcurrent]
    refine waits_iff_of_same rfl hwaits fun hbusy => ?_
    rw [hends]
    unfold Busy at *
    grind

variable (F parsers) in
/-- A failure ends the navigation as a provisional one does: the callback of the
friends' list is told, which does nothing. -/
theorem didFailNavigation_eq (navigation : ℕ) (url : List Char) (samePath : Bool) (s : State) :
    ∃ w : WebView, didFailNavigation F parsers navigation url samePath s =
        { didFailProvisionalNavigation navigation s with web := w } ∧
      w.navigating = (didFailProvisionalNavigation navigation s).web.navigating ∧
      w.evaluations = (didFailProvisionalNavigation navigation s).web.evaluations ∧
      w.swipingActive = (didFailProvisionalNavigation navigation s).web.swipingActive := by
  unfold didFailNavigation didFailProvisionalNavigation
  by_cases hcurrent : navigation = s.web.currentNavigationRequest
  · rw [if_neg (not_not.mpr hcurrent), if_pos hcurrent]
    simp only
    split
    · exact ⟨_, rfl, rfl, rfl, rfl⟩
    · split
      · exact ⟨_, rfl, rfl, rfl, rfl⟩
      · unfold requestCompleted operationDidFinishedWithError
        rw [callCallback_of_ne _ (by nofun)]
        exact ⟨_, rfl, rfl, rfl, rfl⟩
  · rw [if_pos hcurrent, if_neg hcurrent]
    exact ⟨_, rfl, rfl, rfl, rfl⟩

theorem waits_didFailNavigation (hwaits : Waits s) (navigation : ℕ) (url : List Char)
    (samePath : Bool) :
    Waits (didFailNavigation F parsers navigation url samePath s) ↔
      ¬ Strands F parsers s (.didFailNavigation navigation url samePath) := by
  obtain ⟨w, hs, hnavigating, hevaluations, hswiping⟩ :=
    didFailNavigation_eq F parsers navigation url samePath s
  have hsame : Waits (didFailNavigation F parsers navigation url samePath s) ↔
      Waits (didFailProvisionalNavigation navigation s) := by
    unfold Waits Busy
    rw [hs, ← hnavigating, ← hevaluations, ← hswiping]
    rfl
  rw [hsame]
  exact waits_didFailProvisionalNavigation F parsers hwaits navigation

/-! ### The replies -/

theorem callCallback_partial (friends : Json.Value) (s : State) :
    (callCallback F friends .partialResult s).2 = false ↔ Throws F friends s := by
  unfold callCallback friendsLoaded Throws
  by_cases hcallback : s.provider.callback = true
  · rw [if_pos hcallback, if_pos rfl]
    simp only [hcallback, true_and]
    by_cases hreadable : FriendsManager.readable friends = true
    · rw [if_pos hreadable]
      simp only [hreadable, true_and]
      rcases hread : readFacebookFriends F
        (FriendsManager.friendsLoaded F friends .partialResult s.table) with _ | found
      · simp
      · simp
    · rw [if_neg hreadable]
      simp [hreadable]
  · rw [if_neg hcallback]
    simp [hcallback]

/-- What the completion of the friends leaves alone. -/
theorem callCallback_frame (friends : Json.Value) (status : FriendsManager.RequestStatus) (s : State) :
    (callCallback F friends status s).1.web = s.web ∧
      (callCallback F friends status s).1.provider = s.provider ∧
      (callCallback F friends status s).1.currentPerson = s.currentPerson := by
  unfold callCallback friendsLoaded
  split
  · split
    · simp only
      split
      · split
        · exact ⟨rfl, rfl, rfl⟩
        · exact ⟨rfl, rfl, rfl⟩
      · exact ⟨rfl, rfl, rfl⟩
    · exact ⟨rfl, rfl, rfl⟩
  · exact ⟨rfl, rfl, rfl⟩

theorem busy_callCallback (friends : Json.Value) (status : FriendsManager.RequestStatus) (s : State) :
    Busy (callCallback F friends status s).1 ↔ Busy s := by
  obtain ⟨hweb, hprovider, -⟩ := callCallback_frame (F := F) friends status s
  unfold Busy State.retryPending
  rw [hweb, hprovider]

theorem unanswered_of_not_delivers {r : Reply}
    (h : s.web.webViewDidLoadCompletion = none ∨ ¬ Delivers s r) :
    Unanswered F parsers s r s.web.webViewDidLoadCompletion ↔ s.retryPending = false := by
  rcases hcompletion : s.web.webViewDidLoadCompletion with _ | cb
  · exact Iff.rfl
  · have hr : ¬ Delivers s r := h.resolve_left (by rw [hcompletion]; nofun)
    cases cb <;> simp [Unanswered, hr]

/-- A reply that is taken by nobody. -/
theorem waits_evaluated_of_not_delivers (hwaits : Waits s) {r : Reply} (ha : 0 < s.web.evaluations)
    (h : s.web.webViewDidLoadCompletion = none ∨ ¬ Delivers s r) :
    Waits (evaluated F parsers r s) ↔ ¬ Strands F parsers s (.evaluated r) := by
  obtain ⟨w, hs, hnavigating, hswiping, hevaluations, -, -⟩ := evaluated_of_not_delivers F parsers h
  rw [hs]
  refine waits_iff_of_same rfl hwaits fun hbusy => ?_
  have hends : Ends F parsers s (.evaluated r) ↔ (s.web.evaluations = 1 ∧ s.web.navigating = false ∧
      s.web.swipingActive = false ∧ s.retryPending = false) := by
    rw [← unanswered_of_not_delivers h]
    exact Iff.rfl
  rw [hends]
  change (w.navigating = true ∨ 0 < w.evaluations ∨ w.swipingActive = true ∨ s.retryPending = true) ↔ _
  rw [hnavigating, hswiping, hevaluations]
  grind

theorem waits_evaluated_home (hwaits : Waits s) {r : Reply} (ha : 0 < s.web.evaluations)
    (hcompletion : s.web.webViewDidLoadCompletion = some .home) (hr : Delivers s r) :
    Waits (evaluated F parsers r s) ↔ ¬ Strands F parsers s (.evaluated r) := by
  obtain ⟨text, -, hs⟩ := evaluated_of_delivers F parsers hcompletion hr
  let s₁ := (taken text s).setProvider fun q =>
    { q with responseTimeoutTimer := none, serviceBlock := false }
  have hs₁ : evaluated F parsers r s =
      executeFriendsPageRequest F "/friends/center/friends/".toList s₁ := hs
  have hends : Ends F parsers s (.evaluated r) ↔ (s.web.evaluations = 1 ∧ s.web.navigating = false ∧
      s.web.swipingActive = false ∧ Throws F .null s) := by
    change (_ ∧ _ ∧ _ ∧ Unanswered F parsers s r s.web.webViewDidLoadCompletion) ↔ _
    rw [hcompletion]
    simp only [Unanswered, if_pos hr]
  have hthrows : Throws F .null s₁ ↔ Throws F .null s := Iff.rfl
  obtain ⟨-, -, hcurrent⟩ := callCallback_frame (F := F) .null .partialResult s₁
  rw [hs₁]
  unfold executeFriendsPageRequest
  rw [if_neg (by decide)]
  simp only
  by_cases hloaded : (callCallback F .null .partialResult s₁).2 = true
  · rw [if_pos hloaded]
    have hno : ¬ Throws F .null s := by
      rw [← hthrows, ← callCallback_partial, hloaded]
      nofun
    refine ⟨fun _ h => hno (hends.mp h.2).2.2.2, fun _ => waits_of_navigating rfl⟩
  · rw [if_neg hloaded]
    have hdoes : Throws F .null s := by
      rw [← hthrows, ← callCallback_partial]
      exact eq_false_of_ne_true hloaded
    refine waits_iff_of_same hcurrent hwaits fun _ => ?_
    rw [busy_callCallback, hends]
    change (s.web.navigating = true ∨ 0 < s.web.evaluations - 1 ∨ s.web.swipingActive = true ∨
      false = true) ↔ _
    grind

theorem waits_evaluated_friendsPage (hwaits : Waits s) {r : Reply} (ha : 0 < s.web.evaluations)
    (hcompletion : s.web.webViewDidLoadCompletion = some .friendsPage) (hr : Delivers s r) :
    Waits (evaluated F parsers r s) ↔ ¬ Strands F parsers s (.evaluated r) := by
  obtain ⟨text, htext, hs⟩ := evaluated_of_delivers F parsers hcompletion hr
  have hs₁ : evaluated F parsers r s = parseFriendsPage F parsers text (taken text s) := hs
  have hends : Ends F parsers s (.evaluated r) ↔ (s.web.evaluations = 1 ∧ s.web.navigating = false ∧
      s.web.swipingActive = false ∧ s.retryPending = false ∧ Throws F (parsers.friends text) s) := by
    change (_ ∧ _ ∧ _ ∧ Unanswered F parsers s r s.web.webViewDidLoadCompletion) ↔ _
    rw [hcompletion]
    simp only [Unanswered, htext, hr, true_imp_iff, Option.getD_some]
  have hthrows : Throws F (parsers.friends text) (taken text s) ↔ Throws F (parsers.friends text) s :=
    Iff.rfl
  obtain ⟨-, -, hcurrent⟩ :=
    callCallback_frame (F := F) (parsers.friends text) .partialResult (taken text s)
  rw [hs₁]
  unfold parseFriendsPage
  simp only
  by_cases hloaded : (callCallback F (parsers.friends text) .partialResult (taken text s)).2 = true
  · rw [if_pos hloaded]
    have hno : ¬ Throws F (parsers.friends text) s := by
      rw [← hthrows, ← callCallback_partial, hloaded]
      nofun
    refine ⟨fun _ h => hno (hends.mp h.2).2.2.2.2, fun _ _ => ?_⟩
    -- the next page is swiped for
    exact Or.inr (Or.inr (Or.inl rfl))
  · rw [if_neg hloaded]
    have hdoes : Throws F (parsers.friends text) s := by
      rw [← hthrows, ← callCallback_partial]
      exact eq_false_of_ne_true hloaded
    refine waits_iff_of_same hcurrent hwaits fun _ => ?_
    rw [busy_callCallback, hends]
    change (s.web.navigating = true ∨ 0 < s.web.evaluations - 1 ∨ s.web.swipingActive = true ∨
      s.retryPending = true) ↔ _
    grind

/-- The details complete the person that is current. -/
theorem waits_evaluated_userDetail (h : Paired s) {r : Reply}
    (hcompletion : s.web.webViewDidLoadCompletion = some .userDetail) (hr : Delivers s r) :
    Waits (evaluated F parsers r s) ↔ ¬ Strands F parsers s (.evaluated r) := by
  obtain ⟨i, o, text, birthday, hawaits, -, hd⟩ := h.delivered F parsers hcompletion hr
  have hcurrent : (evaluated F parsers r s).currentPerson = none := by
    rw [hd.currentPerson]
    change (if s.currentPerson = some i then none else s.currentPerson) = none
    split
    · rfl
    · rename_i hne
      rcases hj : s.currentPerson with _ | j
      · rfl
      · obtain ⟨o', hslot, -⟩ := h.currentPerson j hj
        rw [hawaits.1] at hslot
        exact absurd (hslot ▸ hj) hne
  refine ⟨fun _ hstrands => ?_, fun _ => waits_of_none hcurrent⟩
  have hunanswered : Unanswered F parsers s r s.web.webViewDidLoadCompletion := hstrands.2.2.2.2
  rw [hcompletion] at hunanswered
  exact hunanswered.1 hr

theorem waits_evaluated (h : Paired s) (hwaits : Waits s) (r : Reply) (ha : 0 < s.web.evaluations) :
    Waits (evaluated F parsers r s) ↔ ¬ Strands F parsers s (.evaluated r) := by
  by_cases hr : s.web.webViewDidLoadCompletion = none ∨ ¬ Delivers s r
  · exact waits_evaluated_of_not_delivers hwaits ha hr
  · rw [not_or, not_not] at hr
    obtain ⟨hset, hr⟩ := hr
    rcases hcompletion : s.web.webViewDidLoadCompletion with _ | _ | _ | _
    · exact absurd hcompletion hset
    · exact waits_evaluated_home hwaits ha hcompletion hr
    · exact waits_evaluated_friendsPage hwaits ha hcompletion hr
    · exact waits_evaluated_userDetail h hcompletion hr

/-! ### All events -/

theorem waits_timerFired (hpending : s.retryPending = true) : Waits (timerFired s) := by
  obtain ⟨retry, t, ht⟩ := exists_of_retryPending hpending
  rw [timerFired_eq s ht]
  refine waits_of_navigating ?_
  cases retry with
  | home => rfl
  | userDetail path => rfl

theorem doCyclic_frame (withNotify samePath : Bool) (w : WebView) :
    (w.doCyclic withNotify samePath).navigating = w.navigating ∧
      (w.doCyclic withNotify samePath).swipingActive = w.swipingActive ∧
      w.evaluations ≤ (w.doCyclic withNotify samePath).evaluations := by
  unfold WebView.doCyclic WebView.performSuccessCallback
  by_cases hswiping : w.swipingActive = false
  · rw [if_pos hswiping]
    exact ⟨rfl, rfl, le_rfl⟩
  · rw [if_neg hswiping]
    cases withNotify <;> cases samePath
    · exact ⟨rfl, rfl, le_rfl⟩
    · exact ⟨rfl, rfl, le_rfl⟩
    · exact ⟨rfl, rfl, le_rfl⟩
    · exact ⟨rfl, rfl, Nat.le_succ _⟩

theorem waits_doCyclic (hwaits : Waits s) (samePath : Bool) :
    Waits (s.setWeb fun w => { w with doCyclicScheduled := false }.doCyclic true samePath) := by
  intro hcurrent
  obtain ⟨hnavigating, hswiping, hevaluations⟩ :=
    doCyclic_frame true samePath { s.web with doCyclicScheduled := false }
  rcases hwaits hcurrent with h | h | h | h
  · exact Or.inl (hnavigating.trans h)
  · exact Or.inr (Or.inl (Nat.lt_of_lt_of_le h hevaluations))
  · exact Or.inr (Or.inr (Or.inl (hswiping.trans h)))
  · exact Or.inr (Or.inr (Or.inr h))

theorem waits_finishSwiping (hwaits : Waits s) :
    Waits (s.setWeb fun w => { w with finishSwipingScheduled := false }.finishSwiping) ↔
      ¬ Strands F parsers s .finishSwiping := by
  refine waits_iff_of_same rfl hwaits fun _ => ?_
  change (s.web.navigating = true ∨ 0 < s.web.evaluations ∨ false = true ∨ s.retryPending = true) ↔
    ¬ (s.web.navigating = false ∧ s.web.evaluations = 0 ∧ s.retryPending = false)
  grind

theorem waits_step_iff (h : Paired s) (hwaits : Waits s) (e : Event) (ha : admits s e) :
    Waits (step F parsers s e) ↔ ¬ Strands F parsers s e := by
  -- an event that never ends what is in flight
  have hkeeps : ∀ {e}, (Ends F parsers s e ↔ False) → Waits (step F parsers s e) →
      (Waits (step F parsers s e) ↔ ¬ Strands F parsers s e) :=
    fun hends hw => ⟨fun _ hstrands => hends.mp hstrands.2, fun _ => hw⟩
  cases e with
  | personSelected i => exact hkeeps Iff.rfl (waits_personSelected hwaits i)
  | updateFriendsFromFacebook => exact hkeeps Iff.rfl (waits_of_navigating rfl)
  | cancelOperation type =>
    cases type with
    | cancelAllFriendsLoad =>
      change Waits (cancelOperation .cancelAllFriendsLoad s) ↔ _
      rw [cancelOperation_all]
      exact waits_cancelRequest hwaits
    | cancelFriendBirthdayLoad =>
      exact hkeeps Iff.rfl (waits_of_none (cancelOperation_birthday s))
  | decidePolicyForNavigationResponse url samePath inWindow =>
    exact waits_decidePolicy hwaits url samePath inWindow
  | didFinishNavigation navigation url samePath inWindow =>
    exact waits_didFinishNavigation hwaits navigation url samePath inWindow
  | didFailNavigation navigation url samePath =>
    exact waits_didFailNavigation hwaits navigation url samePath
  | didFailProvisionalNavigation navigation =>
    exact waits_didFailProvisionalNavigation F parsers hwaits navigation
  | evaluated r => exact waits_evaluated h hwaits r ha
  | timerFired => exact hkeeps Iff.rfl (waits_timerFired ha)
  | doCyclicCallback samePath => exact hkeeps Iff.rfl (waits_doCyclic hwaits samePath)
  | finishSwiping => exact waits_finishSwiping hwaits
  | dialogWillDisappear => exact hkeeps Iff.rfl hwaits
  | debugButtonTapped => exact waits_showDialog hwaits

/-- Whenever nothing is in flight along a run nobody is updating, exactly if no
step ends the last thing in flight without telling the person that waits. -/
theorem nobodyUpdates_iff {es : List Event} (hinit : (system F parsers).init s)
    (hrun : (system F parsers).Run EventSystem.anyEvent s es) :
    (∀ es', es' <+: es → ¬ Busy ((system F parsers).exec s es') →
        NobodyUpdates ((system F parsers).exec s es')) ↔
      (system F parsers).Run (fun s e => ¬ Strands F parsers s e) s es := by
  obtain ⟨table, friends, -, rfl⟩ := hinit
  have hpaired : Paired (initial table friends) := paired_initial table friends
  refine EventSystem.forall_prefix_iff_run (M := system F parsers)
    (P := fun s => ¬ Busy s → NobodyUpdates s)
    (fun s e hs ha => paired_step hs e ha) (fun s e hs hclean ha => ?_) hpaired ?_ hrun
  · exact (waits_iff (paired_step hs e ha)).trans (waits_step_iff hs ((waits_iff hs).mp hclean) e ha)
  · exact (waits_iff hpaired).mpr (waits_of_none rfl)

end

/-! ### A friend that is left updating -/

/-- Ann's page is read in time: when nothing is in flight any more, she is not updating. -/
theorem annInTime_clean : NobodyUpdates ((system doubles plainParsers).exec annAndBob annInTime) :=
  (nobodyUpdates_iff init_annAndBob (by decide +kernel)).mpr (by decide +kernel) annInTime
    List.prefix_rfl (by decide +kernel)

/-- No retry of Ann's page is answered: she is left updating. -/
theorem annGivenUp_updating :
    (system doubles plainParsers).Reach EventSystem.anyEvent
      ((system doubles plainParsers).exec annAndBob annGivenUp) ∧
    ¬ Busy ((system doubles plainParsers).exec annAndBob annGivenUp) ∧
    ¬ NobodyUpdates ((system doubles plainParsers).exec annAndBob annGivenUp) := by
  refine ⟨reach_annAndBob (by decide +kernel), by decide +kernel, fun hclean => ?_⟩
  exact absurd hclean.currentPerson (by decide +kernel)

end Friends
end Horo
