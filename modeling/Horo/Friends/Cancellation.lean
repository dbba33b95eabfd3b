/-
# What happens after a cancellation

`cancelOperation` stops the loading of the page. The timer of the provider and
the completion block of the web view are left as they are: `cancelling_final_iff`
says that nothing comes after a cancellation exactly if no timer was pending,
the web view did not wait for a detail page, and no page of friends that it
waited for, or was going to, could reset a friend that is stored.
-/
import Horo.Friends.Imports

namespace Horo
namespace Friends

open Lib PersonDao

def Idle (s : State) (e : Event) : Prop := ¬ StartsRequest s e

section

variable (F : Sqlite.Doubles) (parsers : Parsers)

/-- What an event must leave alone after a cancellation. -/
structure Final (cancelled : Option ℕ) (s s' : State) (e : Event) : Prop where
  /-- A timer that fires begins no request. -/
  loads : e = .timerFired → s'.web.loads = s.web.loads
  persons : ∀ (i : ℕ) (o : PersonObject), s.persons[i]? = some o →
    ∃ o' : PersonObject, s'.persons[i]? = some o' ∧
      o'.person.birthdayDate = o.person.birthdayDate ∧ o'.person.status = o.person.status
  /-- The birthday and the status in every row. -/
  rows : s.table.KeepsRows FriendsManager.known s'.table
  /-- A person that is new in memory is one of the rows. -/
  found : ∀ (i : ℕ) (o : PersonObject), s.persons[i]? = none → s'.persons[i]? = some o →
    ∃ r ∈ s'.table.rows, resultSetToJsonValue F r.values = some o.person
  opened : ∀ i, cancelled = some i → s'.opened.count i = s.opened.count i

/-- Until the user asks for another page, every event after a cancellation
leaves alone what it must. -/
def CancellingIsFinal (type : CancelTypes) (s : State) : Prop :=
  ∀ es e, (system F parsers).Run Idle (cancelOperation type s) (es ++ [e]) →
    Final F s.currentPerson ((system F parsers).exec (cancelOperation type s) es)
      ((system F parsers).exec (cancelOperation type s) (es ++ [e])) e

/-- The manager is waiting for a page of friends, or for the home page that
comes before it. -/
def AwaitsFriends (s : State) : Prop :=
  s.provider.callback = true ∧ (s.web.webViewDidLoadCompletion = some .friendsPage ∨
    s.web.webViewDidLoadCompletion = some .home ∧ (readFacebookFriends F s.table).isSome = true)

/-- Nothing is outstanding that a cancellation does not stop. -/
structure Quiet (s : State) : Prop where
  timer : s.retryPending = false
  completion : s.web.webViewDidLoadCompletion ≠ some .userDetail
  /-- No page would take from a stored friend what is known of it. -/
  friends : AwaitsFriends F s → ∀ text, text ≠ "" →
    ¬ FriendsManager.Resets F (parsers.friends text) s.table

/-- It stays quiet, and the person that was cancelled is still to be completed. -/
structure Stopped (cancelled : Option ℕ) (s : State) : Prop where
  paired : Paired s
  quiet : Quiet F parsers s
  person : ∀ i, cancelled = some i →
    ∃ o : PersonObject, s.persons[i]? = some o ∧ o.person.status = .readyForRequest

end

section

variable {F : Sqlite.Doubles} {parsers : Parsers} {s s' : State} {cancelled : Option ℕ}

/-! ### The persons that are stored -/

theorem throws_null_iff : Throws F .null s ↔
    s.provider.callback = true ∧ ¬ (readFacebookFriends F s.table).isSome = true := by
  unfold Throws
  rw [FriendsManager.friendsLoaded_null, show FriendsManager.readable .null = true from rfl]
  simp only [true_and]

theorem AwaitsFriends.of_silent (hs : Silent s s') (h : AwaitsFriends F s') : AwaitsFriends F s := by
  obtain ⟨hcallback, hset⟩ := h
  refine ⟨hs.callback ▸ hcallback, ?_⟩
  rcases hs.completion with ⟨hsame, -⟩ | hnone
  · rw [← hsame, ← hs.table]
    exact hset
  · rw [hnone] at hset
    rcases hset with hset | ⟨hset, -⟩
    · cases hset
    · cases hset

/-- The persons a page adds are read from the table. -/
theorem Lists.found {friends : Json.Value} (h : Lists F friends s s') {i : ℕ} {o : PersonObject}
    (hi : s.persons[i]? = none) (ho : s'.persons[i]? = some o) :
    ∃ r ∈ s'.table.rows, resultSetToJsonValue F r.values = some o.person := by
  rcases h.persons with hsame | ⟨found, hfound, hpersons⟩
  · rw [hsame, hi] at ho
    cases ho
  · rw [hpersons, List.getElem?_append_right (List.getElem?_eq_none_iff.mp hi), List.getElem?_map] at ho
    obtain ⟨p, hp, rfl⟩ := Option.map_eq_some_iff.mp ho
    obtain ⟨r, hr, hread⟩ := (mem_of_mapM hfound p).mp (List.mem_of_getElem? hp)
    exact ⟨r, (List.mem_filter.mp hr).1, hread⟩

/-- What an idle event does to what is stored. -/
structure KeepsStored (F : Sqlite.Doubles) (parsers : Parsers) (s s' : State) : Prop where
  friends : AwaitsFriends F s' → ∀ text, text ≠ "" →
    ¬ FriendsManager.Resets F (parsers.friends text) s'.table
  rows : s.table.KeepsRows FriendsManager.known s'.table
  found : ∀ (i : ℕ) (o : PersonObject), s.persons[i]? = none → s'.persons[i]? = some o →
    ∃ r ∈ s'.table.rows, resultSetToJsonValue F r.values = some o.person

theorem keepsStored_of_silent (h : Quiet F parsers s) (hs : Silent s s') : KeepsStored F parsers s s' where
  friends hawaits := by
    rw [hs.table]
    exact h.friends (hawaits.of_silent hs)
  rows := by
    rw [hs.table]
    exact Table.KeepsRows.refl _
  found i o hi ho := by
    have hperson := congrArg (·[i]?) hs.persons
    simp only [List.getElem?_map, hi, ho] at hperson
    cases hperson

theorem keepsStored_home (h : Quiet F parsers s) {r : Reply}
    (hcompletion : s.web.webViewDidLoadCompletion = some .home) (hr : Delivers s r) :
    KeepsStored F parsers s (evaluated F parsers r s) := by
  obtain ⟨hlists, -⟩ := lists_home F parsers hcompletion hr
  have htable : (evaluated F parsers r s).table = s.table := by
    rw [hlists.table, FriendsManager.friendsLoaded_null, ite_self]
  refine ⟨fun hawaits => ?_, ?_, fun i o hi ho => hlists.found hi ho⟩
  · rw [htable]
    apply h.friends
    obtain ⟨hcallback, hset⟩ := hawaits
    rw [hlists.callback] at hcallback
    refine ⟨hcallback, Or.inr ⟨hcompletion, ?_⟩⟩
    rcases hlists.completion with ⟨-, hno⟩ | ⟨hnone, -⟩
    · by_contra hread
      exact hno (throws_null_iff.mpr ⟨hcallback, hread⟩)
    · rw [hnone] at hset
      rcases hset with hset | ⟨hset, -⟩
      · cases hset
      · cases hset
  · rw [htable]
    exact Table.KeepsRows.refl _

theorem keepsStored_friendsPage (h : Quiet F parsers s) {r : Reply}
    (hcompletion : s.web.webViewDidLoadCompletion = some .friendsPage) (hr : Delivers s r) :
    KeepsStored F parsers s (evaluated F parsers r s) := by
  obtain ⟨text, htext, hlists, -⟩ := lists_friendsPage F parsers hcompletion hr
  obtain ⟨text', htext', hne, -⟩ := hr
  obtain rfl : text = text' := Option.some.inj (htext.symm.trans htext')
  by_cases hcallback : s.provider.callback = true
  · have hawaits : AwaitsFriends F s := ⟨hcallback, Or.inl hcompletion⟩
    have htable := hlists.table
    rw [if_pos hcallback] at htable
    refine ⟨fun _ text' hne' hresets => ?_, ?_, fun i o hi ho => hlists.found hi ho⟩
    · rw [htable] at hresets
      exact h.friends hawaits text' hne' (FriendsManager.resets_friendsLoaded hresets)
    · rw [htable]
      exact FriendsManager.keepsRows_friendsLoaded_iff.mpr (h.friends hawaits text hne)
  · refine ⟨fun hawaits => ?_, ?_, fun i o hi ho => hlists.found hi ho⟩
    · exact absurd (hlists.callback ▸ hawaits.1) hcallback
    · rw [hlists.table, if_neg hcallback]
      exact Table.KeepsRows.refl _

variable (F parsers) in
theorem keepsStored_step (hpaired : Paired s) (h : Quiet F parsers s) (e : Event) (ha : admits s e)
    (hidle : Idle s e) : KeepsStored F parsers s (step F parsers s e) := by
  cases listing_step F parsers hpaired e ha with
  | silent hs => exact keepsStored_of_silent h hs
  | home r hcompletion hr => exact keepsStored_home h hcompletion hr
  | friendsPage r hcompletion hr => exact keepsStored_friendsPage h hcompletion hr
  | details hdetails _ =>
    rcases hdetails with hstarts | rfl | hcompletion
    · exact absurd hstarts hidle
    · exact absurd (h.timer.symm.trans ha) Bool.false_ne_true
    · exact absurd hcompletion h.completion

/-! ### After a cancellation -/

theorem Stopped.of_calm (h : Stopped F parsers cancelled s) (hc : Calm s s')
    (hstored : KeepsStored F parsers s s') : Stopped F parsers cancelled s' where
  paired := h.paired.of_calm hc
  quiet :=
    { timer := by
        by_contra hpending
        have hbefore := hc.retryPending (eq_true_of_ne_false hpending)
        rw [h.quiet.timer] at hbefore
        cases hbefore
      completion := fun hset => h.quiet.completion (hc.completion hset).1
      friends := hstored.friends }
  person i hi := by
    obtain ⟨o, ho, hstatus⟩ := h.person i hi
    obtain ⟨o', ho', he⟩ := hc.persons i o ho
    exact ⟨o', ho', he ▸ hstatus⟩

/-- A calm step is final, unless a timer fires. -/
theorem Final.of_calm {e : Event} (he : e ≠ .timerFired) (hc : Calm s s')
    (hstored : KeepsStored F parsers s s') : Final F cancelled s s' e where
  loads h := absurd h he
  persons i o ho := by
    obtain ⟨o', ho', hperson⟩ := hc.persons i o ho
    exact ⟨o', ho', by rw [hperson], by rw [hperson]⟩
  rows := hstored.rows
  found := hstored.found
  opened i _ := by rw [hc.opened]

variable (F parsers) in
theorem stopped_step (h : Stopped F parsers cancelled s) (e : Event) (ha : admits s e)
    (hidle : Idle s e) : Stopped F parsers cancelled (step F parsers s e) ∧
      Final F cancelled s (step F parsers s e) e := by
  have hfires : e ≠ .timerFired := by
    rintro rfl
    exact absurd (h.quiet.timer.symm.trans ha) Bool.false_ne_true
  have hstored := keepsStored_step F parsers h.paired h.quiet e ha hidle
  cases effect_step F parsers e ha with
  | calm hc => exact ⟨h.of_calm hc hstored, Final.of_calm hfires hc hstored⟩
  | opens i o ho hstatus hs =>
    refine ⟨⟨paired_step h.paired _ ha, ?_, ?_⟩, ?_⟩
    · rw [hs]
      exact ⟨h.quiet.timer, h.quiet.completion, h.quiet.friends⟩
    · rw [hs]
      exact h.person
    · refine ⟨fun hfired => absurd hfired hfires, ?_, hstored.rows, hstored.found, fun j hj => ?_⟩
      · rw [hs]
        exact fun j q hq => ⟨q, hq, rfl, rfl⟩
      · -- a person that is completed is not the one that was cancelled
        have hne : i ≠ j := by
          rintro rfl
          obtain ⟨o', ho', hready⟩ := h.person i hj
          obtain rfl : o = o' := Option.some.inj (ho.symm.trans ho')
          rw [hstatus] at hready
          cases hready
        rw [hs]
        show (s.opened ++ [i]).count j = s.opened.count j
        rw [List.count_append, List.count_singleton, if_neg (by simpa using hne), Nat.add_zero]
  | requests i o hstarts hr hslot hcurrent => exact absurd ⟨o, hstarts⟩ hidle
  | lists hl => exact absurd trivial hidle
  | retries path t ht hr hslot hcurrent => exact absurd rfl hfires
  | delivers r hcompletion hr => exact absurd hcompletion h.quiet.completion

theorem stopped_run {es : List Event} : ∀ {s : State}, Stopped F parsers cancelled s →
    (system F parsers).Run Idle s es → Stopped F parsers cancelled ((system F parsers).exec s es) := by
  induction es with
  | nil => exact fun h _ => h
  | cons e es ih =>
    intro s h hrun
    obtain ⟨⟨ha, hidle⟩, hrest⟩ := hrun
    exact ih (stopped_step F parsers h e ha hidle).1 hrest

/-! ### What a cancellation does not stop -/

theorem cancelOperation_frame (type : CancelTypes) (s : State) :
    (cancelOperation type s).provider = s.provider ∧
      (cancelOperation type s).web.webViewDidLoadCompletion = s.web.webViewDidLoadCompletion ∧
      (cancelOperation type s).web.cachedPageContent = s.web.cachedPageContent ∧
      (cancelOperation type s).table = s.table := by
  have hrequest : (cancelRequest s).provider = s.provider ∧
      (cancelRequest s).web.webViewDidLoadCompletion = s.web.webViewDidLoadCompletion ∧
      (cancelRequest s).web.cachedPageContent = s.web.cachedPageContent ∧
      (cancelRequest s).table = s.table := by
    unfold cancelRequest
    split
    · exact ⟨rfl, rfl, rfl, rfl⟩
    · exact ⟨rfl, rfl, rfl, rfl⟩
  unfold cancelOperation
  simp only
  split
  · exact hrequest
  · exact hrequest

/-- A timer that fires begins a request. -/
theorem loads_timerFired (hpending : s.retryPending = true) :
    ∃ path, (timerFired s).web.loads = s.web.loads ++ [path] := by
  obtain ⟨retry, t, ht⟩ := exists_of_retryPending hpending
  have hloads := (dropRequest_frame s).2
  rw [timerFired_eq s ht]
  cases retry with
  | home => exact ⟨_, congrArg (· ++ _) hloads⟩
  | userDetail path => exact ⟨_, congrArg (· ++ _) hloads⟩

/-- WebKit finishes the current navigation, at the page that was requested. -/
def finished (s : State) : Event := .didFinishNavigation s.web.currentNavigationRequest [] true true

variable (F parsers) in
/-- Then a script is in flight. -/
theorem step_finished (s : State) : Silent s (step F parsers s (finished s)) ∧
    (step F parsers s (finished s)).web.webViewDidLoadCompletion = s.web.webViewDidLoadCompletion ∧
    (step F parsers s (finished s)).web.cachedPageContent = s.web.cachedPageContent ∧
    0 < (step F parsers s (finished s)).web.evaluations := by
  obtain ⟨b, hweb⟩ := web_respond (s.setWeb fun w => { w with navigating := false })
    (s.web.delegate && webViewDidLoad []) true true
  have hs : step F parsers s (finished s) = respond (s.setWeb fun w => { w with navigating := false })
      (s.web.delegate && webViewDidLoad []) true true := by
    show didFinishNavigation _ _ _ _ s = _
    unfold didFinishNavigation
    rw [if_pos rfl, handleResponseWithURL_eq]
    rfl
  refine ⟨Silent.didFinishNavigation _ _ _ _ s, ?_⟩
  rw [hs, hweb]
  exact ⟨rfl, rfl, Nat.succ_pos _⟩

/-- A page that WebKit replies with. -/
def pageReply (text : String) : Reply := { page := none, object := some text, url := [] }

theorem delivers_pageReply {text : String} (hne : text ≠ "")
    (hcached : s.web.cachedPageContent ≠ some text) : Delivers s (pageReply text) :=
  ⟨text, rfl, hne, hcached, rfl⟩

/-- A text that the page has not had before. -/
theorem exists_fresh (cached : Option String) : ∃ text : String, text ≠ "" ∧ cached ≠ some text := by
  by_cases hcached : cached = some "a"
  · exact ⟨"b", by decide, by rw [hcached]; decide⟩
  · exact ⟨"a", by decide, hcached⟩

variable (F parsers) in
/-- While the web view waits for a detail page, the page can still arrive. -/
theorem exists_delivers (h : Paired s) (hcompletion : s.web.webViewDidLoadCompletion = some .userDetail) :
    ∃ es r, (system F parsers).Run Idle s (es ++ [.evaluated r]) ∧
      ∃ (i : ℕ) (o o' : PersonObject), ((system F parsers).exec s es).persons[i]? = some o ∧
        (step F parsers ((system F parsers).exec s es) (.evaluated r)).persons[i]? = some o' ∧
        o'.person.status ≠ o.person.status := by
  obtain ⟨-, hwaits, -, hevaluates⟩ := step_finished F parsers s
  rw [hcompletion] at hwaits
  obtain ⟨text, hne, hcached⟩ := exists_fresh (step F parsers s (finished s)).web.cachedPageContent
  have hpaired : Paired (step F parsers s (finished s)) := paired_step h (finished s) trivial
  obtain ⟨i, o, text', birthday, hawaits, -, hd⟩ :=
    hpaired.delivered F parsers hwaits (delivers_pageReply hne hcached)
  refine ⟨[finished s], pageReply text, ⟨⟨trivial, id⟩, ⟨hevaluates, id⟩, trivial⟩,
    i, o, _, hawaits.2.1, hd.person, ?_⟩
  rw [hawaits.2.2]
  unfold FriendsManager.withBirthday
  simp only
  split
  · nofun
  · nofun

variable (F parsers) in
/-- While the web view waits for a page of friends, any page but the last one
can arrive. -/
theorem exists_lists (hcompletion : s.web.webViewDidLoadCompletion = some .friendsPage)
    (text : String) (hne : text ≠ "") (hcached : s.web.cachedPageContent ≠ some text) :
    ∃ es r, (system F parsers).Run Idle s (es ++ [.evaluated r]) ∧
      ((system F parsers).exec s es).table = s.table ∧
      ((system F parsers).exec s es).provider.callback = s.provider.callback ∧
      Lists F (parsers.friends text) ((system F parsers).exec s es)
        (step F parsers ((system F parsers).exec s es) (.evaluated r)) := by
  obtain ⟨hsilent, hwaits, hcontent, hevaluates⟩ := step_finished F parsers s
  rw [hcompletion] at hwaits
  rw [← hcontent] at hcached
  obtain ⟨text', htext', hlists, -⟩ := lists_friendsPage F parsers hwaits
    (delivers_pageReply hne hcached)
  obtain rfl : text = text' := Option.some.inj htext'
  exact ⟨[finished s], pageReply text, ⟨⟨trivial, id⟩, ⟨hevaluates, id⟩, trivial⟩,
    hsilent.table, hsilent.callback, hlists⟩

variable (F parsers) in
/-- The home page can still arrive, and the web view waits for a page of friends. -/
theorem exists_home (hcallback : s.provider.callback = true)
    (hcompletion : s.web.webViewDidLoadCompletion = some .home)
    (hread : (readFacebookFriends F s.table).isSome = true) :
    ∃ es, (system F parsers).Run Idle s es ∧
      ((system F parsers).exec s es).table = s.table ∧
      ((system F parsers).exec s es).provider.callback = true ∧
      ((system F parsers).exec s es).web.webViewDidLoadCompletion = some .friendsPage ∧
      ((system F parsers).exec s es).web.cachedPageContent = none := by
  obtain ⟨hsilent, hwaits, -, hevaluates⟩ := step_finished F parsers s
  rw [hcompletion] at hwaits
  obtain ⟨text, hne, hcached⟩ := exists_fresh (step F parsers s (finished s)).web.cachedPageContent
  obtain ⟨hlists, hcontent⟩ := lists_home F parsers hwaits
    (delivers_pageReply hne hcached)
  have hno : ¬ Throws F .null (step F parsers s (finished s)) := by
    rw [throws_null_iff, hsilent.table]
    exact fun h => h.2 hread
  have hset := hlists.completion.resolve_right fun h => hno h.2
  refine ⟨[finished s, .evaluated (pageReply text)], ⟨⟨trivial, id⟩, ⟨hevaluates, id⟩, trivial⟩, ?_,
    hlists.callback.trans (hsilent.callback.trans hcallback), hset.1, hcontent hset.1⟩
  have htable := hlists.table
  rw [FriendsManager.friendsLoaded_null, ite_self] at htable
  exact htable.trans hsilent.table

variable (F parsers) in
/-- A page of friends that is awaited can still be imported, unless it is the
one that was imported last. -/
theorem exists_imports (h : AwaitsFriends F s) (text : String) (hne : text ≠ "")
    (hcached : s.web.webViewDidLoadCompletion = some .friendsPage →
      s.web.cachedPageContent ≠ some text) :
    ∃ es r, (system F parsers).Run Idle s (es ++ [.evaluated r]) ∧
      ((system F parsers).exec s es).table = s.table ∧
      (step F parsers ((system F parsers).exec s es) (.evaluated r)).table =
        FriendsManager.friendsLoaded F (parsers.friends text) .partialResult s.table := by
  obtain ⟨hcallback, hcompletion | ⟨hcompletion, hread⟩⟩ := h
  · obtain ⟨es, r, hrun, htable, hsame, hlists⟩ :=
      exists_lists F parsers hcompletion text hne (hcached hcompletion)
    refine ⟨es, r, hrun, htable, ?_⟩
    rw [hlists.table, if_pos (hsame.trans hcallback), htable]
  · obtain ⟨es, hrun, htable, hset, hwaits, hnone⟩ := exists_home F parsers hcallback hcompletion hread
    obtain ⟨es', r, hrun', htable', hsame, hlists⟩ := exists_lists F parsers hwaits text hne
      (by rw [hnone]; simp)
    refine ⟨es ++ es', r, ?_, ?_, ?_⟩
    · rw [List.append_assoc]
      exact EventSystem.run_append.mpr ⟨hrun, hrun'⟩
    · rw [EventSystem.exec_append, htable', htable]
    · rw [EventSystem.exec_append, hlists.table, if_pos (hsame.trans hset), htable', htable]

/-! ### When cancelling is final -/

theorem timer_of_final {type : CancelTypes} (hfinal : CancellingIsFinal F parsers type s) :
    s.retryPending = false := by
  by_contra hpending
  have hpending' : (cancelOperation type s).retryPending = true := by
    unfold State.retryPending
    rw [(cancelOperation_frame type s).1]
    exact eq_true_of_ne_false hpending
  have hloads := (hfinal [] .timerFired ⟨⟨hpending', id⟩, trivial⟩).loads rfl
  obtain ⟨path, hbegun⟩ := loads_timerFired hpending'
  have hlength := congrArg List.length (hbegun.symm.trans hloads)
  rw [List.length_append, List.length_singleton] at hlength
  exact absurd hlength (Nat.succ_ne_self _)

theorem completion_of_final {type : CancelTypes} (hpaired : Paired s)
    (hfinal : CancellingIsFinal F parsers type s) :
    s.web.webViewDidLoadCompletion ≠ some .userDetail := by
  intro hcompletion
  rw [← (cancelOperation_frame type s).2.1] at hcompletion
  obtain ⟨es, r, hrun, i, o, o', ho, ho', hstatus⟩ :=
    exists_delivers F parsers (hpaired.of_calm (calm_cancelOperation type s)) hcompletion
  obtain ⟨q, hq, -, hkept⟩ := (hfinal es _ hrun).persons i o ho
  rw [EventSystem.exec_append] at hq
  obtain rfl : o' = q := Option.some.inj (ho'.symm.trans hq)
  exact hstatus hkept

theorem friends_of_final {type : CancelTypes} (hstale : Stale F parsers s)
    (hfinal : CancellingIsFinal F parsers type s) (hawaits : AwaitsFriends F s) {text : String}
    (hne : text ≠ "") : ¬ FriendsManager.Resets F (parsers.friends text) s.table := by
  intro hresets
  obtain ⟨hprovider, hcompletion, hcached, htable⟩ := cancelOperation_frame type s
  have hawaits' : AwaitsFriends F (cancelOperation type s) := by
    unfold AwaitsFriends
    rw [hprovider, hcompletion, htable]
    exact hawaits
  obtain ⟨es, r, hrun, hbefore, hafter⟩ := exists_imports F parsers hawaits' text hne
    fun hset hlast => hstale hawaits.1 (hcompletion ▸ hset) text (hcached ▸ hlast) hresets
  have hrows : ((system F parsers).exec (cancelOperation type s) es).table.KeepsRows
      FriendsManager.known (step F parsers ((system F parsers).exec (cancelOperation type s) es)
        (.evaluated r)).table := by
    have hrows := (hfinal es _ hrun).rows
    rw [EventSystem.exec_append] at hrows
    exact hrows
  rw [hafter, hbefore, FriendsManager.keepsRows_friendsLoaded_iff, htable] at hrows
  exact hrows hresets

/-- Cancelling is final exactly if no timer is pending, the web view does not
wait for a detail page, and no page of friends can reset a stored friend. -/
theorem cancelling_final_iff (hreach : (system F parsers).Reach EventSystem.anyEvent s)
    (type : CancelTypes) : CancellingIsFinal F parsers type s ↔ Quiet F parsers s := by
  have hpaired := paired_of_reach hreach
  constructor
  · intro hfinal
    exact ⟨timer_of_final hfinal, completion_of_final hpaired hfinal,
      fun hawaits _ hne => friends_of_final (stale_of_reach hreach) hfinal hawaits hne⟩
  · intro hquiet es e hrun
    have hstopped : Stopped F parsers s.currentPerson s := by
      refine ⟨hpaired, hquiet, fun i hi => ?_⟩
      obtain ⟨o, -, ho, hstatus⟩ := hpaired.currentPerson i hi
      exact ⟨o, ho, hstatus⟩
    have hstored := keepsStored_of_silent hquiet (Silent.cancelOperation type s)
    have hcancelled := hstopped.of_calm (calm_cancelOperation type s) hstored
    obtain ⟨hbefore, ⟨ha, hidle⟩, -⟩ := EventSystem.run_append.mp hrun
    have hstep := (stopped_step F parsers (stopped_run hcancelled hbefore) e ha hidle).2
    rw [EventSystem.exec_append]
    exact hstep

end

/-! ### Before and after the last retry -/

/-- Once Ann has been given up, cancelling her request is final. -/
theorem annGivenUp_final : CancellingIsFinal doubles plainParsers .cancelFriendBirthdayLoad
    ((system doubles plainParsers).exec annAndBob annGivenUp) := by
  have hreach : (system doubles plainParsers).Reach EventSystem.anyEvent
      ((system doubles plainParsers).exec annAndBob annGivenUp) := reach_annAndBob (by decide +kernel)
  refine (cancelling_final_iff hreach _).mpr ⟨by decide +kernel, by decide +kernel, fun hawaits => ?_⟩
  exact absurd hawaits.1 (by decide +kernel)

/-- The request for Ann has just been started: it is retried although it is
cancelled. -/
theorem cancelled_request_is_retried :
    (system doubles plainParsers).Reach EventSystem.anyEvent
      ((system doubles plainParsers).exec annAndBob [.personSelected 0]) ∧
    ¬ CancellingIsFinal doubles plainParsers .cancelFriendBirthdayLoad
      ((system doubles plainParsers).exec annAndBob [.personSelected 0]) := by
  refine ⟨reach_annAndBob (by decide +kernel), fun hfinal => ?_⟩
  have hfired := (hfinal [] .timerFired ⟨⟨by decide +kernel, id⟩, trivial⟩).loads rfl
  exact absurd hfired (by decide +kernel)

end Friends
end Horo
