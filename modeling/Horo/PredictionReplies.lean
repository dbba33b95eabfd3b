/-
# The two replies to a load of the prediction screen

`PredictionScreenModelImpl` asks for the time and for the horoscopes, and shows
them when both have arrived. A reply that comes while `loadData` runs is the
event after it: asking for the horoscopes is the last thing `loadData` does,
and does not look at the time. The constructor loads once, before anybody can
set a callback.

Key definitions: `Model`, `Replies`, `Joined`.
Key theorems: `joined_step`, `shows_both_replies`.
-/
import Horo.Lib.Reach
import Horo.PredictionScreen

namespace Horo
namespace PredictionScreen

open Lib

/-! ### The program -/

def Timestamps.zero : Timestamps := ⟨0, 0, 0, 0, 0⟩

def Horoscopes.none : Horoscopes := ⟨.none, .none, .none, .none, .none, .none⟩

/-- The members of the model, and how often it has called its callback. -/
structure Model where
  requestCompleted : Bool
  times : Timestamps
  fetched : Horoscopes
  tabsTitles : List String
  predictions : List String
  /-- `callback_` is not empty. -/
  callback : Bool
  calls : ℕ
  deriving DecidableEq, Repr

section

variable (o : Int)

/-- The beginning of `loadData`. -/
def loadData (m : Model) : Model := { m with requestCompleted := false, times := .zero }

/-- `handleFetchedHoroscopes`, on the members. -/
def processFetchedHoroscopes (m : Model) : Model :=
  let tabs := handleFetchedHoroscopes o m.times m.fetched
  { m with tabsTitles := tabs.map Prod.fst
           predictions := tabs.map fun tab => tab.2.content
           calls := if m.callback then m.calls + 1 else m.calls }

/-- The completion of `getServerTimeWithCompletion`. -/
def serverTime (ti : ℚ) (m : Model) : Model :=
  match timestamps o ti with
  | some times =>
    let m := { m with times := times }
    if m.requestCompleted then processFetchedHoroscopes o m else m
  | none => m

/-- The callback of `fetchHoroscopes`. -/
def horoscopesFetched (fetched : Horoscopes) (m : Model) : Model :=
  let m := { m with requestCompleted := true, fetched := fetched }
  if m.times.yesterday ≠ 0 ∨ m.times.today ≠ 0 then processFetchedHoroscopes o m else m

/-- The members before the constructor loads. -/
def Model.fresh : Model :=
  { requestCompleted := false, times := .zero, fetched := .none, tabsTitles := [], predictions := []
    callback := false, calls := 0 }

/-! ### The runs -/

/-- The model, and what has arrived for the load that is going on. -/
structure Replies where
  model : Model
  time : Option ℚ
  fetched : Option Horoscopes
  /-- The calls before the load. -/
  callsBefore : ℕ
  /-- The callback was set when the last reply arrived. -/
  setInTime : Bool
  deriving DecidableEq, Repr

/-- The constructor has loaded. -/
def constructed : Replies := ⟨loadData .fresh, none, none, 0, false⟩

inductive ReplyEvent
  | loadData
  | serverTime (ti : ℚ)
  | horoscopesFetched (fetched : Horoscopes)
  | setDataFetchedCallback (callback : Bool)
  deriving DecidableEq, Repr

/-- Each reply arrives once, and the next load begins after both. -/
def replies : EventSystem Replies ReplyEvent where
  init s := s = constructed
  admits s
    | .loadData => s.time.isSome ∧ s.fetched.isSome
    | .serverTime _ => s.time = none
    | .horoscopesFetched _ => s.fetched = none
    | .setDataFetchedCallback _ => True
  step s
    | .loadData => ⟨loadData s.model, none, none, s.model.calls, false⟩
    | .serverTime ti =>
      { s with model := serverTime o ti s.model, time := some ti, setInTime := s.model.callback }
    | .horoscopesFetched fetched =>
      { s with model := horoscopesFetched o fetched s.model, fetched := some fetched
               setInTime := s.model.callback }
    | .setDataFetchedCallback callback => { s with model := { s.model with callback := callback } }

instance (s : Replies) : ∀ e : ReplyEvent, Decidable ((replies o).admits s e)
  | .loadData => inferInstanceAs (Decidable (s.time.isSome ∧ s.fetched.isSome))
  | .serverTime _ => inferInstanceAs (Decidable (s.time = none))
  | .horoscopesFetched _ => inferInstanceAs (Decidable (s.fetched = none))
  | .setDataFetchedCallback _ => inferInstanceAs (Decidable True)

/-- The tabs of a time and of the horoscopes. -/
def tabsOf (ti : ℚ) (fetched : Horoscopes) : List (String × HoroscopeDTO) :=
  handleFetchedHoroscopes o ((timestamps o ti).getD .zero) fetched

/-- The horoscopes that are chosen for the titles. -/
def chosen (ti : ℚ) (fetched : Horoscopes) : List (String × Option HoroscopeDTO) :=
  let new := newHoroscopes o ((timestamps o ti).getD .zero) fetched
  [("yesterday", new.yesterday), ("today", new.today), ("tomorrow", new.tomorrow),
    ("week", new.week), ("month", new.month), ("year", new.year)]

/-- What the members say of the replies that have arrived. -/
structure Joined (s : Replies) : Prop where
  requestCompleted : s.model.requestCompleted = s.fetched.isSome
  times : s.model.times = (s.time.bind (timestamps o)).getD .zero
  fetched : ∀ fetched, s.fetched = some fetched → s.model.fetched = fetched
  waiting : s.time = none ∨ s.fetched = none → s.model.calls = s.callsBefore
  done : ∀ ti fetched, s.time = some ti → s.fetched = some fetched →
    s.model.tabsTitles = (tabsOf o ti fetched).map Prod.fst ∧
    s.model.predictions = (tabsOf o ti fetched).map (fun tab => tab.2.content) ∧
    s.model.calls = s.callsBefore + if s.setInTime then 1 else 0

variable {o}

/-- The times of a day and of the day before are not both zero. -/
theorem times_ne_zero {ti : ℚ} {times : Timestamps} (h : timestamps o ti = some times) :
    times.yesterday ≠ 0 ∨ times.today ≠ 0 := by
  rw [timestamps_eq] at h
  rw [← Option.some.inj h]
  simp only [midnight]
  omega

theorem exists_timestamps (o : Int) (ti : ℚ) : ∃ times, timestamps o ti = some times :=
  ⟨_, timestamps_eq o ti⟩

theorem joined_constructed : Joined o constructed where
  requestCompleted := rfl
  times := rfl
  fetched _ h := by cases h
  waiting _ := rfl
  done _ _ h := by cases h

/-- What is shown is that of the time and the horoscopes in the members. -/
theorem processFetchedHoroscopes_shows {m : Model} {ti : ℚ} {fetched : Horoscopes}
    (htimes : m.times = (timestamps o ti).getD .zero) (hfetched : m.fetched = fetched) :
    (processFetchedHoroscopes o m).tabsTitles = (tabsOf o ti fetched).map Prod.fst ∧
    (processFetchedHoroscopes o m).predictions = (tabsOf o ti fetched).map (fun tab => tab.2.content) ∧
    (processFetchedHoroscopes o m).calls = m.calls + if m.callback then 1 else 0 := by
  rw [tabsOf, ← htimes, ← hfetched]
  refine ⟨rfl, rfl, ?_⟩
  unfold processFetchedHoroscopes
  cases m.callback <;> rfl

/-- A reply is still to come, and the callback has not been called for the load. -/
theorem Joined.of_waiting {s : Replies} (hrequest : s.model.requestCompleted = s.fetched.isSome)
    (htimes : s.model.times = (s.time.bind (timestamps o)).getD .zero)
    (hmember : ∀ fetched, s.fetched = some fetched → s.model.fetched = fetched)
    (hwaiting : s.time = none ∨ s.fetched = none) (hcalls : s.model.calls = s.callsBefore) :
    Joined o s where
  requestCompleted := hrequest
  times := htimes
  fetched := hmember
  waiting _ := hcalls
  done ti fetched htime hfetched := by
    rcases hwaiting with hnone | hnone
    · cases hnone.symm.trans htime
    · cases hnone.symm.trans hfetched

/-- Both replies have come, and the second one has processed the members. -/
theorem Joined.of_processed {s : Replies} {m : Model} {ti : ℚ} {fetched : Horoscopes}
    (htime : s.time = some ti) (hfetched : s.fetched = some fetched)
    (hmodel : s.model = processFetchedHoroscopes o m) (hrequest : m.requestCompleted = true)
    (htimes : m.times = (timestamps o ti).getD .zero) (hmember : m.fetched = fetched)
    (hcalls : m.calls = s.callsBefore) (hset : s.setInTime = m.callback) : Joined o s where
  requestCompleted := by
    rw [hmodel, hfetched]
    exact hrequest
  times := by
    rw [hmodel, htime]
    exact htimes
  fetched fetched' hf := by
    rw [hmodel, ← Option.some.inj (hfetched.symm.trans hf)]
    exact hmember
  waiting := by
    rintro (hnone | hnone)
    · cases hnone.symm.trans htime
    · cases hnone.symm.trans hfetched
  done ti' fetched' ht hf := by
    obtain rfl : ti = ti' := Option.some.inj (htime.symm.trans ht)
    obtain rfl : fetched = fetched' := Option.some.inj (hfetched.symm.trans hf)
    rw [hmodel, hset, ← hcalls]
    exact processFetchedHoroscopes_shows htimes hmember

/-- The time of a load: it is shown if the horoscopes have arrived. -/
theorem Joined.serverTime {s : Replies} (h : Joined o s) (ti : ℚ) (ha : s.time = none) :
    Joined o ((replies o).step s (.serverTime ti)) := by
  obtain ⟨times, htimes⟩ := exists_timestamps o ti
  have hmodel : ((replies o).step s (.serverTime ti)).model =
      if s.fetched.isSome then processFetchedHoroscopes o { s.model with times := times }
      else { s.model with times := times } := by
    rw [← h.requestCompleted]
    change PredictionScreen.serverTime o ti s.model = _
    unfold PredictionScreen.serverTime
    rw [htimes]
  have hread : times = (timestamps o ti).getD .zero := by rw [htimes, Option.getD_some]
  rcases hfetched : s.fetched with _ | fetched
  · rw [hfetched, Option.isSome_none, if_neg Bool.false_ne_true] at hmodel
    refine .of_waiting ?_ ?_ ?_ (.inr hfetched) ?_
    · rw [hmodel]
      exact h.requestCompleted
    · rw [hmodel]
      exact hread
    · rw [hmodel]
      exact h.fetched
    · rw [hmodel]
      exact h.waiting (.inl ha)
  · rw [hfetched, Option.isSome_some, if_pos rfl] at hmodel
    have hrequest : s.model.requestCompleted = true := by
      rw [h.requestCompleted, hfetched, Option.isSome_some]
    exact .of_processed rfl hfetched hmodel hrequest hread (h.fetched fetched hfetched)
      (h.waiting (.inl ha)) rfl

/-- The horoscopes of a load: they are shown if the time has arrived. -/
theorem Joined.horoscopesFetched {s : Replies} (h : Joined o s) (fetched : Horoscopes)
    (ha : s.fetched = none) : Joined o ((replies o).step s (.horoscopesFetched fetched)) := by
  have htimes := h.times
  rcases htime : s.time with _ | ti
  · have hmodel : ((replies o).step s (.horoscopesFetched fetched)).model =
        { s.model with requestCompleted := true, fetched := fetched } := by
      rw [htime] at htimes
      change PredictionScreen.horoscopesFetched o fetched s.model = _
      unfold PredictionScreen.horoscopesFetched
      simp only [htimes]
      rfl
    refine .of_waiting ?_ ?_ ?_ (.inl htime) ?_
    · rw [hmodel]
      rfl
    · rw [hmodel]
      exact htimes
    · intro fetched' hf
      rw [hmodel]
      exact Option.some.inj hf
    · rw [hmodel]
      exact h.waiting (.inr ha)
  · obtain ⟨times, hstamps⟩ := exists_timestamps o ti
    have hread : s.model.times = (timestamps o ti).getD .zero := by rw [htimes, htime, Option.bind_some]
    have hmodel : ((replies o).step s (.horoscopesFetched fetched)).model =
        processFetchedHoroscopes o { s.model with requestCompleted := true, fetched := fetched } := by
      change PredictionScreen.horoscopesFetched o fetched s.model = _
      unfold PredictionScreen.horoscopesFetched
      exact if_pos (by rw [hread, hstamps, Option.getD_some]; exact times_ne_zero hstamps)
    exact .of_processed htime rfl hmodel rfl hread rfl (h.waiting (.inr ha)) rfl

/-- **Each event keeps the two replies joined.** -/
theorem joined_step {s : Replies} (h : Joined o s) (e : ReplyEvent) (ha : (replies o).admits s e) :
    Joined o ((replies o).step s e) := by
  cases e with
  | loadData => exact ⟨rfl, rfl, fun _ hf => (nomatch hf), fun _ => rfl, fun _ _ ht => (nomatch ht)⟩
  | serverTime ti => exact h.serverTime ti ha
  | horoscopesFetched fetched => exact h.horoscopesFetched fetched ha
  | setDataFetchedCallback callback =>
    exact ⟨h.requestCompleted, h.times, h.fetched, h.waiting, h.done⟩

theorem joined_of_reach {s : Replies} (h : (replies o).Reach EventSystem.anyEvent s) : Joined o s := by
  refine h.inv ?_ fun t e ht ha _ => joined_step ht e ha
  rintro t rfl
  exact joined_constructed

/-! ### The tabs -/

def allTabsTitles : List String := ["yesterday", "today", "tomorrow", "week", "month", "year"]

/-- The titles that are shown are some of all, in their order. -/
theorem titles_shown : ∀ all : List (String × Option HoroscopeDTO),
    ((shown all).map Prod.fst).Sublist (all.map Prod.fst)
  | [] => List.Sublist.refl _
  | (title, h) :: all => by
    have ih := titles_shown all
    rcases h with _ | h
    · exact ih.cons title
    · by_cases hempty : h.content = ""
      · have hskip : shown ((title, some h) :: all) = shown all := by simp [shown, hempty]
        rw [hskip]
        exact ih.cons title
      · have hkeep : shown ((title, some h) :: all) = (title, h) :: shown all := by simp [shown, hempty]
        rw [hkeep]
        exact ih.cons_cons title

/-- What is shown under a title is its horoscope, and has a text. -/
theorem mem_shown {title : String} {h : HoroscopeDTO} {all : List (String × Option HoroscopeDTO)}
    (hmem : (title, h) ∈ shown all) : (title, some h) ∈ all ∧ h.content ≠ "" := by
  obtain ⟨⟨title', h'⟩, htab, hshown⟩ := List.mem_filterMap.mp hmem
  rcases h' with _ | h'
  · cases hshown
  · by_cases hempty : h'.content = ""
    · simp [hempty] at hshown
    · simp only [hempty, if_false, Option.bind_eq_bind, Option.bind_some, Option.some.injEq,
        Prod.mk.injEq] at hshown
      obtain ⟨rfl, rfl⟩ := hshown
      exact ⟨htab, hempty⟩

/-- **After both replies to a load they are shown**, whichever came first: the
callback, if it was set when the second came, has been called once for the
load, and not at all otherwise; titles and texts are those of the tabs of the
time and the horoscopes. -/
theorem shows_both_replies {s : Replies} (h : (replies o).Reach EventSystem.anyEvent s) {ti : ℚ}
    {fetched : Horoscopes} (htime : s.time = some ti) (hfetched : s.fetched = some fetched) :
    s.model.calls = s.callsBefore + (if s.setInTime then 1 else 0) ∧
      s.model.tabsTitles = (tabsOf o ti fetched).map Prod.fst ∧
      s.model.predictions = (tabsOf o ti fetched).map (fun tab => tab.2.content) ∧
      s.model.tabsTitles.length = s.model.predictions.length ∧
      (∀ (k : ℕ) (title text : String), s.model.tabsTitles[k]? = some title → s.model.predictions[k]? = some text →
        ∃ horoscope, (title, some horoscope) ∈ chosen o ti fetched ∧ text = horoscope.content ∧ text ≠ "") ∧
      s.model.tabsTitles.Sublist allTabsTitles := by
  obtain ⟨htitles, hpredictions, hcalls⟩ := (joined_of_reach h).done ti fetched htime hfetched
  have htabs : tabsOf o ti fetched = shown (chosen o ti fetched) := rfl
  refine ⟨hcalls, htitles, hpredictions, ?_, ?_, ?_⟩
  · rw [htitles, hpredictions, List.length_map, List.length_map]
  · intro k title text htitle htext
    rw [htitles, List.getElem?_map] at htitle
    rw [hpredictions, List.getElem?_map] at htext
    obtain ⟨⟨title', horoscope⟩, htab, rfl⟩ := Option.map_eq_some_iff.mp htitle
    rw [htab, Option.map_some] at htext
    obtain rfl := Option.some.inj htext
    rw [htabs] at htab
    obtain ⟨hchosen, hne⟩ := mem_shown (List.mem_of_getElem? htab)
    exact ⟨horoscope, hchosen, rfl, hne⟩
  · rw [htitles, htabs]
    exact titles_shown (chosen o ti fetched)

/-- The two orders of the replies give one screen. -/
theorem same_in_both_orders {s : Replies} (h : (replies o).Reach EventSystem.anyEvent s) (htime : s.time = none)
    (hfetched : s.fetched = none) (ti : ℚ) (fetched : Horoscopes) :
    (((replies o).exec s [.serverTime ti, .horoscopesFetched fetched]).model.tabsTitles,
        ((replies o).exec s [.serverTime ti, .horoscopesFetched fetched]).model.predictions) =
      (((replies o).exec s [.horoscopesFetched fetched, .serverTime ti]).model.tabsTitles,
        ((replies o).exec s [.horoscopesFetched fetched, .serverTime ti]).model.predictions) := by
  have hj := joined_of_reach h
  obtain ⟨htitles, hpredictions, -⟩ :=
    ((hj.serverTime ti htime).horoscopesFetched fetched hfetched).done ti fetched rfl rfl
  obtain ⟨htitles', hpredictions', -⟩ :=
    ((hj.horoscopesFetched fetched hfetched).serverTime ti htime).done ti fetched rfl rfl
  simp only [EventSystem.exec_cons, EventSystem.exec_nil, htitles, hpredictions, htitles', hpredictions']

end

/-- The second load has its replies in the other order. -/
def twoLoads : List ReplyEvent :=
  [.horoscopesFetched november, .setDataFetchedCallback true, .serverTime 1509879600, .loadData,
    .serverTime 1509879600, .horoscopesFetched november]

theorem twoLoads_shown :
    ((replies 3600).exec constructed twoLoads).model.calls = 2 ∧
      ((replies 3600).exec constructed twoLoads).model.tabsTitles =
        ["yesterday", "today", "tomorrow", "week", "month"] := by
  have hrun : (replies 3600).Run EventSystem.anyEvent constructed twoLoads := by decide +kernel
  have hshows := @shows_both_replies 3600 _ ⟨constructed, rfl, EventSystem.ReachFrom.exec _ _ hrun⟩
    1509879600 november rfl rfl
  have hbefore : ((replies 3600).exec constructed twoLoads).callsBefore = 1 := by decide +kernel
  have hset : ((replies 3600).exec constructed twoLoads).setInTime = true := by decide +kernel
  have htabs : (tabsOf 3600 1509879600 november).map Prod.fst =
      ["yesterday", "today", "tomorrow", "week", "month"] := by decide +kernel
  rw [hshows.1, hshows.2.1, hbefore, hset]
  exact ⟨rfl, htabs⟩

/-- Replies that come while the constructor loads find no callback. -/
theorem first_load_uncalled :
    (replies 3600).Run EventSystem.anyEvent constructed [.serverTime 1509879600, .horoscopesFetched november] ∧
      ((replies 3600).exec constructed [.serverTime 1509879600, .horoscopesFetched november]).time.isSome ∧
      ((replies 3600).exec constructed [.serverTime 1509879600, .horoscopesFetched november]).fetched.isSome ∧
      ((replies 3600).exec constructed [.serverTime 1509879600, .horoscopesFetched november]).model.calls = 0 := by
  decide +kernel

end PredictionScreen
end Horo
