/-
# What a step of the friends screen can do

Most steps neither start a request for the details of a person nor deliver the
page of one: `Calm` says what they leave alone. `effect_step` lists the others.
-/
import Horo.Friends.FriendsScreen

namespace Horo
namespace Friends

open Lib PersonDao

/-! ### Frames -/

section Frames

variable (s : State)

/-- A request that is cancelled stops the loading, and the swiping. -/
theorem cancelRequest_eq : ∃ w : WebView, cancelRequest s = { s with web := w } ∧
    w.webViewDidLoadCompletion = s.web.webViewDidLoadCompletion ∧
    w.workingURL = s.web.workingURL ∧ w.loads = s.web.loads := by
  unfold cancelRequest
  split
  · exact ⟨_, rfl, rfl, rfl, rfl⟩
  · exact ⟨_, rfl, rfl, rfl, rfl⟩

/-- A timer that fires drops the request before it makes another one. -/
def dropRequest : State :=
  if s.provider.request then (cancelRequest s).setProvider fun q => { q with request := false } else s

theorem timerFired_eq {retry : Retry} {t : RungTimer}
    (ht : s.provider.responseTimeoutTimer = some (retry, t)) :
    timerFired s = (retry.doExecute (dropRequest s)).setProvider fun q =>
      { q with responseTimeoutTimer := some (retry, t.fired true) } := by
  unfold timerFired
  rw [ht]
  rfl

theorem dropRequest_frame : (dropRequest s).currentPerson = s.currentPerson ∧
    (dropRequest s).web.loads = s.web.loads := by
  obtain ⟨w, hs, -, -, hloads⟩ := cancelRequest_eq s
  unfold dropRequest
  split
  · rw [hs]
    exact ⟨rfl, hloads⟩
  · exact ⟨rfl, rfl⟩

theorem exists_of_retryPending {s : State} (h : s.retryPending = true) :
    ∃ retry t, s.provider.responseTimeoutTimer = some (retry, t) := by
  unfold State.retryPending at h
  rcases ht : s.provider.responseTimeoutTimer with _ | ⟨retry, t⟩
  · rw [ht] at h
    cases h
  · exact ⟨retry, t, rfl⟩

theorem web_serviceMessage : (serviceMessage s).web = s.web := by
  unfold serviceMessage
  split <;> rfl

theorem web_toggleDialog (needsShowDialog : Bool) :
    ∃ b, (toggleDialog needsShowDialog s).web = { s.web with dialogPresented := b } := by
  unfold toggleDialog
  split
  · exact ⟨true, by rw [showDialog, State.setWeb, web_serviceMessage]⟩
  · split
    · exact ⟨false, by rw [hideDialog, State.setWeb, web_serviceMessage]⟩
    · exact ⟨s.web.dialogPresented, rfl⟩

theorem web_checkWindow (needsShowDialog inWindow : Bool) (w : WebView) :
    ∃ b, checkWindow needsShowDialog inWindow w = { w with dialogPresented := b } := by
  unfold checkWindow
  split
  · exact ⟨false, rfl⟩
  · exact ⟨w.dialogPresented, rfl⟩

/-- What a response does that is not ignored. -/
def respond (needsShowDialog samePath inWindow : Bool) : State :=
  (toggleDialog needsShowDialog (s.setWeb (checkWindow needsShowDialog inWindow))).setWeb
    (·.performSuccessCallback samePath)

theorem handleResponseWithURL_eq (url : List Char) (force samePath inWindow : Bool) :
    handleResponseWithURL url force samePath inWindow s =
      if !force && (s.web.forceDidFinishNavigation || (s.web.delegate && webViewDidLoad url)) then s
      else respond s (s.web.delegate && webViewDidLoad url) samePath inWindow := by
  unfold handleResponseWithURL
  cases force
  · cases s.web.forceDidFinishNavigation
    · rfl
    · rfl
  · rfl

/-- A response changes the dialog, and starts a script. -/
theorem web_respond (needsShowDialog samePath inWindow : Bool) :
    ∃ b, (respond s needsShowDialog samePath inWindow).web =
      { s.web.performSuccessCallback samePath with dialogPresented := b } := by
  obtain ⟨b, hb⟩ := web_checkWindow needsShowDialog inWindow s.web
  obtain ⟨b', hb'⟩ :=
    web_toggleDialog (s.setWeb (checkWindow needsShowDialog inWindow)) needsShowDialog
  refine ⟨b', ?_⟩
  change WebView.performSuccessCallback samePath (toggleDialog _ _).web = _
  rw [hb']
  change WebView.performSuccessCallback samePath
    { checkWindow _ inWindow s.web with dialogPresented := b' } = _
  rw [hb]
  unfold WebView.performSuccessCallback
  split <;> rfl

end Frames

/-! ### Calm steps -/

/-- Only the current person is updating. -/
def OneUpdating (s : State) : Prop :=
  ∀ (i : ℕ) (o : PersonObject), s.persons[i]? = some o → o.updating = true → s.currentPerson = some i

/-- No request for details is started or answered: the persons in memory stay
as they are but for the flag, nothing is attributed and no screen opened, and
what waits for a detail page has waited before. -/
structure Calm (s s' : State) : Prop where
  persons : ∀ (i : ℕ) (o : PersonObject), s.persons[i]? = some o →
    ∃ o' : PersonObject, s'.persons[i]? = some o' ∧ o'.person = o.person
  userInformationCompletion :
    s'.provider.userInformationCompletion = s.provider.userInformationCompletion
  opened : s'.opened = s.opened
  attributions : s'.attributions = s.attributions
  completion : s'.web.webViewDidLoadCompletion = some .userDetail →
    s.web.webViewDidLoadCompletion = some .userDetail ∧ s'.web.workingURL = s.web.workingURL
  timer : ∀ path t, s'.provider.responseTimeoutTimer = some (.userDetail path, t) →
    ∃ t', s.provider.responseTimeoutTimer = some (.userDetail path, t')
  retryPending : s'.retryPending = true → s.retryPending = true
  currentPerson : s'.currentPerson = s.currentPerson ∨ s'.currentPerson = none
  oneUpdating : OneUpdating s → OneUpdating s'

section SetUpdating

variable {s : State} {i j : ℕ} {b : Bool}

theorem person_setUpdating (i : ℕ) (b : Bool) {o : PersonObject} (ho : s.persons[j]? = some o) :
    ∃ o' : PersonObject, (setUpdating i b s).persons[j]? = some o' ∧ o'.person = o.person := by
  unfold setUpdating
  simp only [List.getElem?_modify, ho]
  refine ⟨_, rfl, ?_⟩
  split <;> rfl

theorem getElem?_setUpdating {o : PersonObject} (ho : (setUpdating i b s).persons[j]? = some o) :
    ∃ o', s.persons[j]? = some o' ∧ o.updating = if j = i then b else o'.updating := by
  unfold setUpdating at ho
  simp only [List.getElem?_modify] at ho
  obtain ⟨o', ho', rfl⟩ := Option.map_eq_some_iff.mp ho
  refine ⟨o', ho', ?_⟩
  by_cases hj : j = i
  · rw [if_pos hj, if_pos hj.symm]
  · rw [if_neg hj, if_neg (Ne.symm hj)]

end SetUpdating

namespace Calm

variable {s s' s'' : State}

theorem refl (s : State) : Calm s s :=
  ⟨fun _ o ho => ⟨o, ho, rfl⟩, rfl, rfl, rfl, fun h => ⟨h, rfl⟩, fun _ t ht => ⟨t, ht⟩, id,
    Or.inl rfl, id⟩

theorem trans (h : Calm s s') (h' : Calm s' s'') : Calm s s'' where
  persons i o ho := by
    obtain ⟨o', ho', he⟩ := h.persons i o ho
    obtain ⟨o'', ho'', he'⟩ := h'.persons i o' ho'
    exact ⟨o'', ho'', he'.trans he⟩
  userInformationCompletion := h'.userInformationCompletion.trans h.userInformationCompletion
  opened := h'.opened.trans h.opened
  attributions := h'.attributions.trans h.attributions
  completion hc := by
    obtain ⟨hc', hw'⟩ := h'.completion hc
    obtain ⟨hc'', hw⟩ := h.completion hc'
    exact ⟨hc'', hw'.trans hw⟩
  timer path t ht := by
    obtain ⟨t', ht'⟩ := h'.timer path t ht
    exact h.timer path t' ht'
  retryPending hr := h.retryPending (h'.retryPending hr)
  currentPerson := by
    rcases h'.currentPerson with he | he
    · rw [he]; exact h.currentPerson
    · exact Or.inr he
  oneUpdating hone := h'.oneUpdating (h.oneUpdating hone)

/-- Only the web view has changed, and what waits in it has waited before. -/
theorem setWeb {f : WebView → WebView}
    (h : (f s.web).webViewDidLoadCompletion = some .userDetail →
      s.web.webViewDidLoadCompletion = some .userDetail ∧ (f s.web).workingURL = s.web.workingURL) :
    Calm s (s.setWeb f) :=
  { refl s with completion := h }

/-- Only the provider has changed; its timer is the same, or gone. -/
theorem setProvider {f : Provider → Provider}
    (hslot : (f s.provider).userInformationCompletion = s.provider.userInformationCompletion)
    (htimer : (f s.provider).responseTimeoutTimer = s.provider.responseTimeoutTimer ∨
      (f s.provider).responseTimeoutTimer = none) : Calm s (s.setProvider f) where
  persons := (refl s).persons
  userInformationCompletion := hslot
  opened := rfl
  attributions := rfl
  completion := (refl s).completion
  timer path t ht := by
    change (f s.provider).responseTimeoutTimer = _ at ht
    rcases htimer with he | he
    · exact ⟨t, he ▸ ht⟩
    · rw [he] at ht; cases ht
  retryPending hr := by
    unfold State.retryPending at hr ⊢
    change (f s.provider).responseTimeoutTimer.any _ = true at hr
    rcases htimer with he | he
    · rwa [he] at hr
    · rw [he] at hr; cases hr
  currentPerson := Or.inl rfl
  oneUpdating := id

/-- The current person is given up. -/
theorem cleared {i : ℕ} (hcurrent : s.currentPerson = none ∨ s.currentPerson = some i) :
    Calm s { setUpdating i false s with currentPerson := none } :=
  { refl s with
    persons := fun j o ho => person_setUpdating i false ho
    currentPerson := Or.inr rfl
    oneUpdating := by
      intro hone j o ho hupdating
      obtain ⟨o', ho', he⟩ := getElem?_setUpdating ho
      by_cases hj : j = i
      · rw [he, if_pos hj] at hupdating
        cases hupdating
      · rw [he, if_neg hj] at hupdating
        have hone' := hone j o' ho' hupdating
        rcases hcurrent with hc | hc
        · rw [hc] at hone'; cases hone'
        · rw [hc] at hone'
          exact absurd (Option.some.inj hone').symm hj }

theorem loadFriends (found : List Person) (s : State) : Calm s (loadFriends found s) :=
  { refl s with
    persons := by
      intro i o ho
      have hlt : i < s.persons.length := (List.getElem?_eq_some_iff.mp ho).1
      exact ⟨o, (List.getElem?_append_left hlt).trans ho, rfl⟩
    oneUpdating := by
      intro hone i o ho hupdating
      change (s.persons ++ found.map fun p => (⟨p, false⟩ : PersonObject))[i]? = some o at ho
      by_cases hlt : i < s.persons.length
      · rw [List.getElem?_append_left hlt] at ho
        exact hone i o ho hupdating
      · rw [List.getElem?_append_right (Nat.le_of_not_lt hlt), List.getElem?_map] at ho
        obtain ⟨p, -, rfl⟩ := Option.map_eq_some_iff.mp ho
        cases hupdating }

variable {F : Sqlite.Doubles} {parsers : Parsers}

theorem friendsLoaded (friends : Json.Value) (status : FriendsManager.RequestStatus) (s : State) :
    Calm s (friendsLoaded F friends status s).1 := by
  have htable : ∀ t : Persons, Calm s { s with table := t } := fun _ => { refl s with }
  unfold Friends.friendsLoaded
  split
  · simp only
    split
    · split
      · exact (htable _).trans (loadFriends _ _)
      · exact htable _
    · exact htable _
  · exact refl s

/-- A request for anything but details. -/
theorem executeRequest (path : List Char) {callback : Callback} (hcallback : callback ≠ .userDetail)
    (swipeToBottom force : Bool) (s : State) :
    Calm s (executeRequest path callback swipeToBottom force s) := by
  have hne : some callback ≠ some Callback.userDetail := fun h => hcallback (Option.some.inj h)
  have hprovider : Calm s (s.setProvider fun q => { q with currentPath := requestPath path, request := true }) :=
    setProvider rfl (Or.inl rfl)
  unfold Friends.executeRequest
  simp only
  split
  · exact hprovider.trans (setWeb fun h => absurd h hne)
  · exact hprovider.trans (setWeb fun h => absurd h hne)

theorem cancelRequest (s : State) : Calm s (cancelRequest s) := by
  obtain ⟨w, hs, hcompletion, hworking, -⟩ := cancelRequest_eq s
  have hweb : Calm s (s.setWeb fun _ => w) := setWeb fun h => ⟨hcompletion ▸ h, hworking⟩
  exact hs ▸ hweb

theorem dropRequest (s : State) : Calm s (dropRequest s) := by
  unfold Friends.dropRequest
  split
  · exact (cancelRequest s).trans (setProvider rfl (Or.inl rfl))
  · exact refl s

theorem callCallback (friends : Json.Value) (status : FriendsManager.RequestStatus) (s : State) :
    Calm s (callCallback F friends status s).1 := by
  unfold Friends.callCallback
  split
  · exact friendsLoaded friends status s
  · exact refl s

theorem executeFriendsPageRequest (path : List Char) (s : State) :
    Calm s (executeFriendsPageRequest F path s) := by
  have hcallback := callCallback (F := F) .null .partialResult s
  unfold Friends.executeFriendsPageRequest
  split
  · exact refl s
  · simp only
    split
    · refine hcallback.trans (Calm.trans (setProvider rfl (Or.inl rfl)) (executeRequest _ ?_ _ _ _))
      exact Callback.noConfusion
    · exact hcallback

theorem parseFriendsPage (text : String) (s : State) :
    Calm s (parseFriendsPage F parsers text s) := by
  have hcallback := callCallback (F := F) (parsers.friends text) .partialResult s
  unfold Friends.parseFriendsPage
  simp only
  split
  · exact hcallback.trans (executeRequest _ Callback.noConfusion _ _ _)
  · exact hcallback

/-- What a page does that is no detail page. -/
theorem run {callback : Callback} (hcallback : callback ≠ .userDetail) (text : String)
    (page : Option (List Char)) (s : State) : Calm s (callback.run F parsers text page s) := by
  cases callback with
  | home =>
    unfold Callback.run parseHomePage
    exact Calm.trans (setProvider rfl (Or.inr rfl)) (executeFriendsPageRequest _ _)
  | friendsPage => exact parseFriendsPage text s
  | userDetail => exact absurd rfl hcallback

theorem operationDidFinishedWithError (s : State) : Calm s (operationDidFinishedWithError F s) :=
  callCallback _ _ s

theorem serviceMessage (s : State) : Calm s (serviceMessage s) := by
  unfold Friends.serviceMessage
  split
  · exact setProvider rfl (Or.inr rfl)
  · exact refl s

theorem showDialog (s : State) : Calm s (showDialog s) :=
  (serviceMessage s).trans (setWeb fun h => ⟨h, rfl⟩)

theorem hideDialog (s : State) : Calm s (hideDialog s) :=
  (serviceMessage s).trans (setWeb fun h => ⟨h, rfl⟩)

theorem checkWindow (needsShowDialog inWindow : Bool) (s : State) :
    Calm s (s.setWeb (checkWindow needsShowDialog inWindow)) := by
  refine setWeb ?_
  unfold Friends.checkWindow
  split <;> exact fun h => ⟨h, rfl⟩

theorem toggleDialog (needsShowDialog : Bool) (s : State) : Calm s (toggleDialog needsShowDialog s) := by
  unfold Friends.toggleDialog
  split
  · exact showDialog s
  · split
    · exact hideDialog s
    · exact refl s

theorem performSuccessCallback (samePath : Bool) (s : State) :
    Calm s (s.setWeb (·.performSuccessCallback samePath)) := by
  refine setWeb ?_
  unfold WebView.performSuccessCallback
  split <;> exact fun h => ⟨h, rfl⟩

theorem handleResponseWithURL (url : List Char) (force samePath inWindow : Bool) (s : State) :
    Calm s (handleResponseWithURL url force samePath inWindow s) := by
  rw [handleResponseWithURL_eq]
  split
  · exact refl s
  · exact (checkWindow _ _ s).trans ((toggleDialog _ _).trans (performSuccessCallback _ _))

theorem didFinishNavigation (navigation : ℕ) (url : List Char) (samePath inWindow : Bool) (s : State) :
    Calm s (didFinishNavigation navigation url samePath inWindow s) := by
  unfold Friends.didFinishNavigation
  simp only
  split
  · exact Calm.trans (setWeb fun h => ⟨h, rfl⟩) (handleResponseWithURL _ _ _ _ _)
  · exact handleResponseWithURL _ _ _ _ s

theorem didFailProvisionalNavigation (navigation : ℕ) (s : State) :
    Calm s (didFailProvisionalNavigation navigation s) := by
  unfold Friends.didFailProvisionalNavigation
  split
  · exact setWeb fun h => ⟨h, rfl⟩
  · exact refl s

theorem didFailNavigation (navigation : ℕ) (url : List Char) (samePath : Bool) (s : State) :
    Calm s (didFailNavigation F parsers navigation url samePath s) := by
  have hended : Calm s (s.setWeb fun w => { w with navigating := false }) := setWeb fun h => ⟨h, rfl⟩
  unfold Friends.didFailNavigation
  split
  · exact refl s
  · simp only
    split
    · exact hended
    · split
      · exact hended
      · refine hended.trans (Calm.trans (setWeb fun h => ?_) (operationDidFinishedWithError _))
        cases h

theorem doCyclic (withNotify samePath : Bool) (s : State) :
    Calm s (s.setWeb (·.doCyclic withNotify samePath)) := by
  refine setWeb ?_
  unfold WebView.doCyclic
  split
  · exact fun h => ⟨h, rfl⟩
  · simp only
    split
    · unfold WebView.performSuccessCallback
      split <;> exact fun h => ⟨h, rfl⟩
    · exact fun h => ⟨h, rfl⟩

end Calm

/-! ### The other steps -/

/-- A request for the details behind a path has been started. -/
structure Requested (path : List Char) (s s' : State) : Prop where
  persons : ∀ (i : ℕ) (o : PersonObject), s.persons[i]? = some o →
    ∃ o' : PersonObject, s'.persons[i]? = some o' ∧ o'.person = o.person
  opened : s'.opened = s.opened
  attributions : s'.attributions = s.attributions
  completion : s'.web.webViewDidLoadCompletion = some .userDetail
  workingURL : s'.web.workingURL = requestPath path
  timer : ∃ t, s'.provider.responseTimeoutTimer = some (.userDetail path, t)
  oneUpdating : OneUpdating s → OneUpdating s'

/-- The reply carries a page, and not that of the login. -/
def Delivers (s : State) (r : Reply) : Prop :=
  ∃ text, r.object = some text ∧ text ≠ "" ∧ s.web.cachedPageContent ≠ some text ∧
    webViewDidLoad r.url = false

instance (s : State) (r : Reply) : Decidable (Delivers s r) :=
  decidable_of_iff (r.object.any (fun text => text ≠ "" ∧ s.web.cachedPageContent ≠ some text ∧
    webViewDidLoad r.url = false) = true) (by
      rw [Option.any_eq_true]
      simp only [decide_eq_true_eq]
      rfl)

section

variable {F : Sqlite.Doubles} {parsers : Parsers} {s : State}

theorem userDetailPath_ne_nil (path : List Char) : userDetailPath path ≠ [] := by
  unfold userDetailPath
  split <;> simp

theorem requested_requestUserInformation (path : List Char) (i : ℕ) (s : State) :
    Requested (userDetailPath path) s (requestUserInformation path i s) ∧
      (requestUserInformation path i s).provider.userInformationCompletion = some i ∧
      (requestUserInformation path i s).currentPerson = s.currentPerson := by
  unfold requestUserInformation executeUserDetailPageRequest
  simp only [if_neg (userDetailPath_ne_nil path)]
  exact ⟨⟨fun _ o ho => ⟨o, ho, rfl⟩, rfl, rfl, rfl, rfl, ⟨_, rfl⟩, id⟩, rfl, rfl⟩

/-- The selection of a ready person starts a request. -/
structure Starts (i : ℕ) (o : PersonObject) (s : State) : Prop where
  person : s.persons[i]? = some o
  status : o.person.status = .readyForRequest
  currentPerson : s.currentPerson = none ∨ s.currentPerson = some i
  personUrl : o.person.personUrl ≠ ""

/-- The person that is selected is the one that is updating. -/
theorem oneUpdating_selected {i : ℕ} (hcurrent : s.currentPerson = none ∨ s.currentPerson = some i)
    (hone : OneUpdating s) : OneUpdating (setUpdating i true { s with currentPerson := some i }) := by
  intro j o ho hupdating
  obtain ⟨o', ho', he⟩ := getElem?_setUpdating ho
  by_cases hj : j = i
  · rw [hj]; rfl
  · rw [he, if_neg hj] at hupdating
    have hone' := hone j o' ho' hupdating
    rcases hcurrent with hc | hc
    · rw [hc] at hone'; cases hone'
    · rw [hc] at hone'; exact hone'

theorem Requested.of_calm {path : List Char} {s s' s'' : State} (hc : Calm s s')
    (h : Requested path s' s'') : Requested path s s'' :=
  { h with
    persons := by
      intro i o ho
      obtain ⟨o', ho', he⟩ := hc.persons i o ho
      obtain ⟨o'', ho'', he'⟩ := h.persons i o' ho'
      exact ⟨o'', ho'', he'.trans he⟩
    opened := h.opened.trans hc.opened
    attributions := h.attributions.trans hc.attributions
    oneUpdating := fun hone => h.oneUpdating (hc.oneUpdating hone) }

/-- Without an URL the callback is called at once. -/
theorem calm_selected {i : ℕ} (hcurrent : s.currentPerson = none ∨ s.currentPerson = some i) :
    Calm s (personUpdated i false (setUpdating i true { s with currentPerson := some i })) := by
  have hcleared := Calm.cleared (s := setUpdating i true { s with currentPerson := some i })
    (Or.inr rfl)
  have hdone : personUpdated i false (setUpdating i true { s with currentPerson := some i }) =
      { setUpdating i false (setUpdating i true { s with currentPerson := some i }) with
        currentPerson := none } := by
    unfold personUpdated
    exact if_pos rfl
  rw [hdone]
  exact { Calm.refl s with
    persons := by
      intro j q hq
      obtain ⟨q', hq', he⟩ := person_setUpdating (s := { s with currentPerson := some i }) i true hq
      obtain ⟨q'', hq'', he'⟩ := hcleared.persons j q' hq'
      exact ⟨q'', hq'', he'.trans he⟩
    currentPerson := Or.inr rfl
    oneUpdating := fun hone => hcleared.oneUpdating (oneUpdating_selected hcurrent hone) }

/-- With one, the request is that of the selected person. -/
theorem Requested.of_selected {i : ℕ} {path : List Char} {s' : State}
    (hcurrent : s.currentPerson = none ∨ s.currentPerson = some i)
    (h : Requested path (setUpdating i true { s with currentPerson := some i }) s') :
    Requested path s s' :=
  { h with
    persons := by
      intro j q hq
      obtain ⟨q', hq', he⟩ := person_setUpdating (s := { s with currentPerson := some i }) i true hq
      obtain ⟨q'', hq'', he'⟩ := h.persons j q' hq'
      exact ⟨q'', hq'', he'.trans he⟩
    oneUpdating := fun hone => h.oneUpdating (oneUpdating_selected hcurrent hone) }

/-- Selecting a person opens its screen, requests its details, or is calm. -/
theorem personSelected_cases (i : ℕ) (s : State) :
    Calm s (personSelected i s) ∨
    (∃ o, s.persons[i]? = some o ∧ o.person.status = .completed ∧
      personSelected i s = showPersonViewController i s) ∨
    (∃ o, Starts i o s ∧ Requested (userDetailPath o.person.personUrl.toList) s (personSelected i s) ∧
      (personSelected i s).provider.userInformationCompletion = some i ∧
      (personSelected i s).currentPerson = some i) := by
  unfold personSelected
  rcases ho : s.persons[i]? with _ | o
  · exact Or.inl (Calm.refl s)
  · simp only
    rcases hstatus : o.person.status with _ | _ | _ | _
    · exact Or.inl (Calm.refl s)
    · simp only
      split
      · exact Or.inl (Calm.refl s)
      · rename_i hbusy
        have hcurrent : s.currentPerson = none ∨ s.currentPerson = some i := by
          by_contra hne
          rw [not_or] at hne
          exact hbusy hne
        unfold updateUserInformationForPerson
        split
        · exact Or.inl (calm_selected hcurrent)
        · rename_i hurl
          obtain ⟨hr, hslot, hsame⟩ := requested_requestUserInformation o.person.personUrl.toList i
            (setUpdating i true { s with currentPerson := some i })
          exact Or.inr (Or.inr ⟨o, ⟨ho, hstatus, hcurrent, hurl⟩, Requested.of_selected hcurrent hr, hslot, hsame⟩)
    · exact Or.inr (Or.inl ⟨o, rfl, hstatus, rfl⟩)
    · exact Or.inl (Calm.refl s)

/-- The friends are requested: nothing waits for details any more. -/
structure Listed (s s' : State) : Prop where
  persons : s'.persons = s.persons
  opened : s'.opened = s.opened
  attributions : s'.attributions = s.attributions
  completion : s'.web.webViewDidLoadCompletion = some .home
  userInformationCompletion :
    s'.provider.userInformationCompletion = s.provider.userInformationCompletion
  timer : ∃ t, s'.provider.responseTimeoutTimer = some (.home, t)
  currentPerson : s'.currentPerson = s.currentPerson

theorem listed_updateFriendsFromFacebook (s : State) : Listed s (updateFriendsFromFacebook s) :=
  ⟨rfl, rfl, rfl, rfl, rfl, ⟨_, rfl⟩, rfl⟩

theorem calm_cancelOperation (type : CancelTypes) (s : State) : Calm s (cancelOperation type s) := by
  unfold cancelOperation
  simp only
  split
  · rename_i i hcurrent
    exact (Calm.cancelRequest s).trans (Calm.cleared (Or.inr hcurrent))
  · exact Calm.cancelRequest s

/-- A timer that fires requests the details again, or is calm. -/
theorem timerFired_cases (hpending : s.retryPending = true) :
    Calm s (timerFired s) ∨
    ∃ path t, s.provider.responseTimeoutTimer = some (.userDetail path, t) ∧
      Requested path s (timerFired s) ∧
      (timerFired s).provider.userInformationCompletion = s.provider.userInformationCompletion ∧
      (timerFired s).currentPerson = s.currentPerson := by
  obtain ⟨retry, t, ht⟩ := exists_of_retryPending hpending
  have hdrop := Calm.dropRequest s
  rw [timerFired_eq s ht]
  cases retry with
  | home =>
    have hrequested := hdrop.trans ((Calm.setProvider (f := fun q => { q with serviceBlock := true })
      rfl (Or.inl rfl)).trans
      (Calm.executeRequest "home.php".toList (show Callback.home ≠ .userDetail from nofun)
        false false _))
    exact Or.inl { hrequested with
      timer := by
        intro path t' ht'
        cases ht'
      retryPending := fun _ => hpending }
  | userDetail path =>
    refine Or.inr ⟨path, t, ht, ?_, hdrop.userInformationCompletion, (dropRequest_frame s).1⟩
    exact Requested.of_calm hdrop ⟨fun _ o ho => ⟨o, ho, rfl⟩, rfl, rfl, rfl, rfl, ⟨_, rfl⟩, id⟩

/-- The state in which a callback is called for a page. -/
def taken (text : String) (s : State) : State :=
  s.setWeb fun w =>
    { w with
      evaluations := w.evaluations - 1
      finishSwipingScheduled := true
      cachedPageContent := some text
      webViewDidLoadCompletion := none
      serviceBlock := false
      forceDidFinishNavigation := false }

variable (F parsers) in
/-- A page is handed to the callback that is set. -/
theorem evaluated_of_delivers {r : Reply} {cb : Callback}
    (hcompletion : s.web.webViewDidLoadCompletion = some cb) (hr : Delivers s r) :
    ∃ text, r.object = some text ∧
      evaluated F parsers r s = cb.run F parsers text r.page (taken text s) := by
  obtain ⟨text, htext, hne, hcached, hlogin⟩ := hr
  refine ⟨text, htext, ?_⟩
  have hno : ¬ contains "login".toList r.url = true := by
    rw [show contains "login".toList r.url = false from hlogin]
    exact Bool.false_ne_true
  unfold evaluated requestCompleted isRequiredAuthorizationResponse
  simp only [State.setWeb, hcompletion, htext, if_neg hcached, if_neg hne, if_neg hno,
    Bool.false_eq_true, if_false, taken]

/-- The completion of the friends is not partial: it does nothing. -/
theorem callCallback_of_ne (friends : Json.Value) {status : FriendsManager.RequestStatus}
    (h : status ≠ .partialResult) : callCallback F friends status s = (s, true) := by
  unfold callCallback friendsLoaded
  rw [if_neg h, ite_self]

variable (F parsers) in
/-- A reply that is no page, or that nobody waits for. -/
theorem evaluated_of_not_delivers {r : Reply}
    (h : s.web.webViewDidLoadCompletion = none ∨ ¬ Delivers s r) :
    ∃ w : WebView, evaluated F parsers r s = { s with web := w } ∧
      w.navigating = s.web.navigating ∧ w.swipingActive = s.web.swipingActive ∧
      w.evaluations = s.web.evaluations - 1 ∧ w.workingURL = s.web.workingURL ∧
      (w.webViewDidLoadCompletion = s.web.webViewDidLoadCompletion ∧
          w.cachedPageContent = s.web.cachedPageContent ∨
        w.webViewDidLoadCompletion = none) := by
  unfold evaluated
  simp only
  split
  · rename_i cb text hcb htext
    change s.web.webViewDidLoadCompletion = some cb at hcb
    have hno : ¬ Delivers s r := h.resolve_left (by rw [hcb]; nofun)
    split
    · exact ⟨_, rfl, rfl, rfl, rfl, rfl, Or.inl ⟨rfl, rfl⟩⟩
    · rename_i hcached
      unfold requestCompleted
      simp only
      split
      · exact ⟨_, rfl, rfl, rfl, rfl, rfl, Or.inr rfl⟩
      · rename_i hne
        have hlogin : contains "login".toList r.url = true := by
          by_contra hlogin
          exact hno ⟨text, htext, hne, hcached, eq_false_of_ne_true hlogin⟩
        unfold isRequiredAuthorizationResponse
        simp only [if_pos hlogin, if_true]
        rw [callCallback_of_ne _ (by nofun)]
        exact ⟨_, rfl, rfl, rfl, rfl, rfl, Or.inr rfl⟩
  · exact ⟨_, rfl, rfl, rfl, rfl, rfl, Or.inl ⟨rfl, rfl⟩⟩

variable (F parsers) in
/-- A reply delivers the details, or is calm. -/
theorem evaluated_cases (r : Reply) (s : State) :
    Calm s (evaluated F parsers r s) ∨
    (s.web.webViewDidLoadCompletion = some .userDetail ∧ Delivers s r) := by
  by_cases h : s.web.webViewDidLoadCompletion = none ∨ ¬ Delivers s r
  · obtain ⟨w, hs, -, -, -, hworking, hcompletion⟩ := evaluated_of_not_delivers F parsers h
    rw [hs]
    have hweb : Calm s (s.setWeb fun _ => w) := by
      refine Calm.setWeb fun hset => ⟨?_, hworking⟩
      rcases hcompletion with ⟨he, -⟩ | he
      · exact he ▸ hset
      · rw [he] at hset; cases hset
    exact Or.inl hweb
  · rw [not_or, not_not] at h
    obtain ⟨hcompletion, hr⟩ := h
    rcases hcb : s.web.webViewDidLoadCompletion with _ | cb
    · exact absurd hcb hcompletion
    · by_cases huser : cb = .userDetail
      · exact Or.inr ⟨congrArg some huser, hr⟩
      · obtain ⟨text, -, hs⟩ := evaluated_of_delivers F parsers hcb hr
        have htaken : Calm s (taken text s) := Calm.setWeb fun hset => nomatch hset
        exact Or.inl (hs ▸ htaken.trans (Calm.run huser text r.page _))

/-! ### What is delivered -/

/-- The birthday of the person `i` has been set from a page, and its callback called. -/
structure Delivered (i : ℕ) (o : PersonObject) (birthday : DateWrapper) (page : Option (List Char))
    (s s' : State) : Prop where
  person : s'.persons[i]? = some ⟨FriendsManager.withBirthday o.person birthday, false⟩
  persons : ∀ j ≠ i, s'.persons[j]? = s.persons[j]?
  currentPerson : s'.currentPerson = if s.currentPerson = some i then none else s.currentPerson
  opened : s'.opened = if 0 < birthday.month then s.opened ++ [i] else s.opened
  attributions : s'.attributions = s.attributions ++ [⟨o.person, birthday, page⟩]
  provider : s'.provider = s.provider
  web : s'.web = s.web

theorem delivered_birthdayUpdated {i : ℕ} {o : PersonObject} (ho : s.persons[i]? = some o)
    (birthday : DateWrapper) (page : Option (List Char)) :
    Delivered i o birthday page s (birthdayUpdated F i birthday page s) := by
  unfold birthdayUpdated personUpdated showPersonViewController setUpdating
  simp only [ho]
  by_cases hmonth : 0 < birthday.month <;> by_cases hcurrent : s.currentPerson = some i
  all_goals
    simp only [hmonth, hcurrent, decide_true, decide_false, if_true, if_false, Bool.false_eq_true]
    constructor
    · simp [ho]
    · intro j hj
      simp [Ne.symm hj]
    all_goals simp [hmonth, hcurrent]

/-- The text of a date is no date but the one it was made from. -/
theorem parsed_toString (date : DateWrapper) :
    (if date.toString = [] then some DateWrapper.none else DateWrapper.fromString date.toString) =
      some date := by
  split
  · rename_i hempty
    have hread := DateWrapper.fromString_toString date
    rw [hempty] at hread
    exact hread
  · exact DateWrapper.fromString_toString date

/-- The state in which the details are read. -/
def answered (text : String) (s : State) : State :=
  (taken text s).setProvider fun q => { q with responseTimeoutTimer := none }

variable (F parsers) in
/-- The birthday that is delivered is that of the text of the reply. -/
theorem delivered_object {r : Reply} {i : ℕ} {o : PersonObject}
    (hcompletion : s.web.webViewDidLoadCompletion = some .userDetail) (hr : Delivers s r)
    (hslot : s.provider.userInformationCompletion = some i) (ho : s.persons[i]? = some o) :
    ∃ text, r.object = some text ∧
      Delivered i o (parsers.birthday text) r.page (answered text s) (evaluated F parsers r s) := by
  obtain ⟨text, htext, hs⟩ := evaluated_of_delivers F parsers hcompletion hr
  refine ⟨text, htext, ?_⟩
  have hslot' : (answered text s).provider.userInformationCompletion = some i := hslot
  have hreads : evaluated F parsers r s =
      birthdayUpdated F i (parsers.birthday text) r.page (answered text s) := by
    rw [hs]
    change parseUserDetailPage F parsers text r.page (answered text s) = _
    unfold parseUserDetailPage
    simp only [parsed_toString, hslot']
  rw [hreads]
  exact delivered_birthdayUpdated (s := answered text s) ho _ _

variable (F parsers) in
theorem delivered_evaluated {r : Reply} {i : ℕ} {o : PersonObject}
    (hcompletion : s.web.webViewDidLoadCompletion = some .userDetail) (hr : Delivers s r)
    (hslot : s.provider.userInformationCompletion = some i) (ho : s.persons[i]? = some o) :
    ∃ text birthday, Delivered i o birthday r.page (answered text s) (evaluated F parsers r s) := by
  obtain ⟨text, -, hd⟩ := delivered_object F parsers hcompletion hr hslot ho
  exact ⟨text, _, hd⟩

/-! ### All steps -/

/-- What an admitted event can do. -/
inductive Effect (s s' : State) : Event → Prop
  | calm {e : Event} (h : Calm s s') : Effect s s' e
  | opens (i : ℕ) (o : PersonObject) (ho : s.persons[i]? = some o)
      (hstatus : o.person.status = .completed) (h : s' = showPersonViewController i s) :
      Effect s s' (.personSelected i)
  | requests (i : ℕ) (o : PersonObject) (hstarts : Starts i o s)
      (h : Requested (userDetailPath o.person.personUrl.toList) s s')
      (hslot : s'.provider.userInformationCompletion = some i)
      (hcurrent : s'.currentPerson = some i) : Effect s s' (.personSelected i)
  | lists (h : Listed s s') : Effect s s' .updateFriendsFromFacebook
  | retries (path : List Char) (t : RungTimer)
      (ht : s.provider.responseTimeoutTimer = some (.userDetail path, t))
      (h : Requested path s s')
      (hslot : s'.provider.userInformationCompletion = s.provider.userInformationCompletion)
      (hcurrent : s'.currentPerson = s.currentPerson) : Effect s s' .timerFired
  | delivers (r : Reply) (hcompletion : s.web.webViewDidLoadCompletion = some .userDetail)
      (h : Delivers s r) : Effect s s' (.evaluated r)

variable (F parsers) in
theorem effect_step (e : Event) (ha : admits s e) : Effect s (step F parsers s e) e := by
  cases e with
  | personSelected i =>
    rcases personSelected_cases i s with h | ⟨o, ho, hstatus, h⟩ | ⟨o, hstarts, h, hslot, hcurrent⟩
    · exact .calm h
    · exact .opens i o ho hstatus h
    · exact .requests i o hstarts h hslot hcurrent
  | updateFriendsFromFacebook => exact .lists (listed_updateFriendsFromFacebook s)
  | cancelOperation type => exact .calm (calm_cancelOperation type s)
  | decidePolicyForNavigationResponse url samePath inWindow =>
    exact .calm (Calm.handleResponseWithURL _ _ _ _ s)
  | didFinishNavigation navigation url samePath inWindow => exact .calm (Calm.didFinishNavigation _ _ _ _ s)
  | didFailNavigation navigation url samePath => exact .calm (Calm.didFailNavigation _ _ _ s)
  | didFailProvisionalNavigation navigation => exact .calm (Calm.didFailProvisionalNavigation navigation s)
  | evaluated r =>
    rcases evaluated_cases F parsers r s with h | ⟨hcompletion, h⟩
    · exact .calm h
    · exact .delivers r hcompletion h
  | timerFired =>
    rcases timerFired_cases ha with h | ⟨path, t, ht, h, hslot, hcurrent⟩
    · exact .calm h
    · exact .retries path t ht h hslot hcurrent
  | doCyclicCallback samePath =>
    have hweb : Calm s (s.setWeb fun w => { w with doCyclicScheduled := false }) :=
      Calm.setWeb fun h => ⟨h, rfl⟩
    exact .calm (hweb.trans (Calm.doCyclic true samePath _))
  | finishSwiping =>
    have hweb : Calm s (s.setWeb fun w => { w with finishSwipingScheduled := false }.finishSwiping) :=
      Calm.setWeb fun h => ⟨h, rfl⟩
    exact .calm hweb
  | dialogWillDisappear =>
    have hweb : Calm s (s.setWeb fun w => { w with dialogPresented := false }) :=
      Calm.setWeb fun h => ⟨h, rfl⟩
    exact .calm hweb
  | debugButtonTapped => exact .calm (Calm.showDialog s)

end

end Friends
end Horo
