/-
# From the storage of the server to the screen

The server makes the document of a sign from its storage, the service parses
it, and the screen of predictions chooses what it shows by the dates. The
storage has a text for a sign, a kind of prediction and a date; the screen
shows a title and a text. `shown_eq` says what becomes of the one in the other.

Key definitions: `delivered`, `Covers`, `storedText`.
Key theorems: `parse_snapshot`, `tabsOf_delivered`, `shown_eq`.
-/
import Mathlib.Data.List.Find
import Horo.HoroscopesService
import Horo.PredictionReplies
import Horo.Server.TtyDocuments

namespace Horo
namespace Delivery

open Lib Calendar EcmaDate Server HoroscopesService
open HoroscopesParser hiding types

/-- The documents that the storage has under its paths. -/
abbrev Store := String → Option Server.Document

/-! ### The way of a document -/

/-- What the screen reads of a horoscope. -/
def screenHoroscope (h : HoroscopeDTO) : PredictionScreen.HoroscopeDTO := ⟨h.content, h.date.toNat⟩

/-- The arguments of the callback, as the screen reads them. -/
def screenHoroscopes (horoscopes : Horoscopes) : PredictionScreen.Horoscopes where
  yesterday := (horoscopes .yesterday).map screenHoroscope
  today := (horoscopes .today).map screenHoroscope
  tomorrow := (horoscopes .tomorrow).map screenHoroscope
  week := (horoscopes .week).map screenHoroscope
  month := (horoscopes .month).map screenHoroscope
  year := (horoscopes .year).map screenHoroscope

/-- The data of the document of a sign: what was set last under its path. -/
def snapshot (sets : List (String × List Entry)) (zodiac : ZodiacTypes) : Json.Value :=
  match sets.reverse.lookup ("horoscopes/" ++ zodiac.name) with
  | some entries => .object [("result", .array (entries.map entryData))]
  | none => .null

/-- What `fetchHoroscopes` hands to the screen; `none` where the parser throws. -/
def delivered (sets : List (String × List Entry)) (zodiac : ZodiacTypes) :
    Option PredictionScreen.Horoscopes :=
  (parse (snapshot sets zodiac)).map screenHoroscopes

/-! ### The dates of a day -/

/-- The date string of a day. -/
def dayString (day : Int) : String := String.ofList (dateString (ofDayNumber day))

/-- What `dateStringFromType` answers on a day. -/
def dayDates (k : Int) (t : TabsType) : String := dayString (namedDay k k t)

/-- The clock is read on the day when the event happens. -/
def OnDay (offset k : Int) (e : Event) : Prop :=
  ∃ readings : Readings, (∀ t, localDay offset (readings t).1 = k ∧ localDay offset (readings t).2 = k) ∧
    e.dates = datesAt offset readings

theorem OnDay.dates {offset k : Int} {e : Event} (h : OnDay offset k e) : e.dates = dayDates k := by
  obtain ⟨readings, hday, hdates⟩ := h
  rw [hdates]
  funext t
  rw [datesAt, dayDates, dayString, dateStringFromType_eq_iff, (hday t).1, (hday t).2]

/-! ### What is parsed -/

/-- A day on which no date of the document is before 1970. -/
def Modern (k : Int) : Prop := 31 ≤ k ∧ k ≤ 100000000

/-- The document of a sign on a day. -/
def document (contents : TabsType → Option String) {k : Int} (hk : Modern k) : TTYDocument where
  contents := contents
  day t := namedDay k k t
  day_le t := namedDay_le (by unfold Modern at hk; omega) (by unfold Modern at hk; omega) t

theorem namedDay_nonneg {k : Int} (hk : Modern k) {t : TabsType} (ht : t ∈ types) : 0 ≤ namedDay k k t := by
  have hday := (ofDayNumber k).day_le_thirtyOne
  obtain ⟨hlow, hhigh⟩ := hk
  simp only [types, List.mem_cons, List.not_mem_nil, or_false] at ht
  rcases ht with rfl | rfl | rfl | rfl | rfl <;> simp only [namedDay, mday, monday] <;> omega

theorem readable_document {contents : TabsType → Option String}
    (hcontents : ∀ t, t ∉ types → contents t = none)
    {k : Int} (hk : Modern k) : (document contents hk).Readable := by
  intro i hi
  obtain ⟨p, -, hp⟩ := List.mem_filterMap.mp hi
  obtain ⟨content, hcontent, rfl⟩ := Option.map_eq_some_iff.mp hp
  refine namedDay_nonneg hk ?_
  by_contra ht
  exact Option.some_ne_none content (hcontent.symm.trans (hcontents _ ht))

/-- **What is parsed of the document of a sign**: the horoscopes of its
contents, with the days of the server. -/
theorem parse_snapshot (docs : Docs) {es : List Event} {offset k : Int} (hk : Modern k)
    (hrun : arraysMap.Run Flight.Undisturbed ⟨[], []⟩ es) (hday : ∀ e ∈ es, OnDay offset k e) {z : Sign}
    (hz : (run docs es).flight.Finished z) {zodiac : ZodiacTypes} (hname : zodiac.name = z.name) :
    parse (snapshot (run docs es).sets zodiac) =
      some (document (contentsOn docs z (dayDates k)) hk).horoscope := by
  have hlookup := lookup_sets docs hrun (fun e he => (hday e he).dates) hz
  have hdata : snapshot (run docs es).sets zodiac =
      (document (contentsOn docs z (dayDates k)) hk).data := by
    rw [snapshot, hname, hlookup]
    rfl
  rw [hdata, TTYDocument.parse_data, if_pos (readable_document (fun t => contentsOn_of_notMem) hk)]

/-! ### What is shown -/

/-- The days for which a document of the server's day can have an entry that is
shown for a period. -/
def coveredDays (k : Int) : Period → List Int
  | .yesterday | .today | .tomorrow => [k - 1, k, k + 1]
  | .week => [namedDay k k .weekly]
  | .month => [namedDay k k .monthly]
  | .year => []

/-- What is found in the storage for a day. -/
def found (store : Store) (z : Sign) (t : TabsType) (day : Int) : Option String :=
  getDocumentData (store (storagePath z t (dayString day)))

/-- The text of the storage for a day of a period, if the document covers the day. -/
def storedText (store : Store) (z : Sign) (k : Int) (p : Period) (day : Int) : String :=
  if day ∈ coveredDays k p then Json.cstr ((found store z (tabsType p) day).getD "") else ""

/-- The horoscope of the storage for a day of a period. -/
def storedTab (store : Store) (z : Sign) (k : Int) (p : Period) (day : Int) :
    Option PredictionScreen.HoroscopeDTO :=
  if day ∈ coveredDays k p then
    (found store z (tabsType p) day).map fun content => ⟨Json.cstr content, 86400 * day⟩
  else none

/-- What the tabs of a device show that has the local day `k'`. -/
def storedTabs (store : Store) (z : Sign) (k k' : Int) :
    List (String × Option PredictionScreen.HoroscopeDTO) :=
  Period.all.map fun p => (p.key, storedTab store z k p (periodDay k' p))

/-- The horoscopes of the document as the screen reads them. -/
theorem screenHoroscope_document {contents : TabsType → Option String} {k : Int} (hk : Modern k)
    {p : Period} (ht : tabsType p ∈ types) : ((document contents hk).horoscope p).map screenHoroscope =
      (contents (tabsType p)).map fun content =>
        ⟨Json.cstr content, 86400 * namedDay k k (tabsType p)⟩ := by
  have hnonneg := namedDay_nonneg hk ht
  have hle : (namedDay k k (tabsType p)).natAbs ≤ 100000400 := (document contents hk).day_le (tabsType p)
  have hdate : ∀ content,
      ((Item.mk p.type (namedDay k k (tabsType p)) content).horoscope.date.toNat : Int) =
      86400 * namedDay k k (tabsType p) := by
    intro content
    rw [Item.date_toNat ⟨hnonneg, by simp only; omega⟩]
    simp only
    omega
  have hitem : (document contents hk).item p =
      (contents (tabsType p)).map fun content =>
        ⟨p.type, namedDay k k (tabsType p), Json.cstr content⟩ := rfl
  rw [TTYDocument.horoscope, hitem, Option.map_map, Option.map_map]
  refine congrArg (fun f => (contents (tabsType p)).map f) (funext fun content => ?_)
  exact congrArg (PredictionScreen.HoroscopeDTO.mk (Json.cstr content)) (hdate _)

/-- Under the unshifted clock the horoscope of a day is searched for by its date. -/
theorem hasHoroscopeWithDate_eq {o day : Int} {horoscopes : List (Option PredictionScreen.HoroscopeDTO)}
    (hdays : ∀ h, some h ∈ horoscopes → ∃ d : Int, h.date = 86400 * d) :
    PredictionScreen.hasHoroscopeWithDate o (PredictionScreen.midnight o (day + o / 86400)) horoscopes =
      (horoscopes.filterMap id).find? fun h => h.date == 86400 * day := by
  rw [PredictionScreen.find_eq]
  refine List.find?_congr fun h hmem => ?_
  obtain ⟨d, hd⟩ := hdays h (by simpa using hmem)
  have hmidnight := @PredictionScreen.midnight_eq_iff o (day + o / 86400) h (ofDayNumber d)
    (by rw [dayNumber_ofDayNumber]; exact hd)
  rw [dayNumber_ofDayNumber] at hmidnight
  rw [Bool.eq_iff_iff, beq_iff_eq, beq_iff_eq, hmidnight, hd]
  omega

/-- The horoscopes that the document has for a period. -/
def candidates (store : Store) (z : Sign) (k : Int) (p : Period) :
    List (Option PredictionScreen.HoroscopeDTO) :=
  (coveredDays k p).map fun day =>
    (found store z (tabsType p) day).map fun content => ⟨Json.cstr content, 86400 * day⟩

/-- The search finds what the storage has for the day. -/
theorem find_found (f : Int → Option String) (day : Int) : ∀ days : List Int,
    ((days.map fun d => (f d).map fun content =>
      (⟨Json.cstr content, 86400 * d⟩ : PredictionScreen.HoroscopeDTO)).filterMap id).find?
        (fun h => h.date == 86400 * day) =
      if day ∈ days then (f day).map fun content => ⟨Json.cstr content, 86400 * day⟩ else none
  | [] => rfl
  | d :: days => by
    have ih := find_found f day days
    by_cases hd : d = day
    · subst hd
      rw [if_pos List.mem_cons_self]
      rcases hf : f d with _ | content
      · rw [List.map_cons, hf]
        rw [hf] at ih
        simpa using ih
      · simp [hf]
    · have hdate : (86400 * d == 86400 * day) = false := by
        rw [beq_eq_false_iff_ne]
        omega
      have hmem : day ∈ d :: days ↔ day ∈ days := by simp [Ne.symm hd]
      rw [if_congr hmem rfl rfl, ← ih]
      rcases hf : f d with _ | content
      · simp [hf]
      · simp [hf, hdate]

/-- What is chosen of the horoscopes for a period. -/
theorem hasHoroscopeWithDate_candidates {o : Int} (store : Store) (z : Sign)
    (k day : Int)
    (p : Period) : PredictionScreen.hasHoroscopeWithDate o (PredictionScreen.midnight o (day + o / 86400))
      (candidates store z k p) = storedTab store z k p day := by
  rw [hasHoroscopeWithDate_eq, candidates, find_found, storedTab]
  intro h hmem
  obtain ⟨d, -, hd⟩ := List.mem_map.mp hmem
  obtain ⟨content, -, rfl⟩ := Option.map_eq_some_iff.mp hd
  exact ⟨d, rfl⟩

/-- What is fetched are the horoscopes of the storage. -/
theorem fetched_eq (store : Store) (z : Sign) {k : Int} (hk : Modern k) :
    let fetched := screenHoroscopes (document (contentsOn (fun _ _ => store) z (dayDates k)) hk).horoscope
    [fetched.yesterday, fetched.today, fetched.tomorrow] = candidates store z k .today ∧
      [fetched.week] = candidates store z k .week ∧ [fetched.month] = candidates store z k .month ∧
      fetched.year = none := by
  obtain ⟨hyesterday, htomorrow, -⟩ := namedDay_self k
  have hcontent : ∀ t ∈ types, contentsOn (fun _ _ => store) z (dayDates k) t =
      found store z t (namedDay k k t) := fun t ht => if_pos ht
  have hdays : ∀ t, horoTypeByTabsType t = "days" → ∀ day,
      found store z t day = found store z .today day := by
    intro t ht day
    unfold found storagePath
    rw [ht]
    rfl
  have hyear : ((document (contentsOn (fun _ _ => store) z (dayDates k)) hk).horoscope .year) = none := rfl
  simp only [screenHoroscopes]
  rw [screenHoroscope_document hk (by decide), screenHoroscope_document hk (by decide),
    screenHoroscope_document hk (by decide), screenHoroscope_document hk (by decide),
    screenHoroscope_document hk (by decide), hyear]
  simp only [tabsType]
  rw [hcontent _ (by decide), hcontent _ (by decide), hcontent _ (by decide), hcontent _ (by decide),
    hcontent _ (by decide), hyesterday, htomorrow, hdays .yesterday rfl, hdays .tomorrow rfl]
  exact ⟨rfl, rfl, rfl, rfl⟩

/-- The times of the tabs under an unshifted clock: the midnights of the days of the periods. -/
theorem timestamps_unshifted {o : Int} {ti : ℚ} (h : PredictionScreen.Unshifted o ti) :
    PredictionScreen.timestamps o ti = some (
      let midnightOf := fun p => PredictionScreen.midnight o
        (periodDay (PredictionScreen.localDay o ti) p + o / 86400)
      { yesterday := midnightOf .yesterday, today := midnightOf .today, tomorrow := midnightOf .tomorrow
        week := midnightOf .week, month := midnightOf .month }) := by
  have hday := (PredictionScreen.day_eq_iff o ti).mpr ⟨h.day, h.time⟩
  have hweek := (PredictionScreen.monday_add_eq_iff _ _).mpr h.week
  have hmonth :=
    (PredictionScreen.firstOfMonth_add_eq_iff (PredictionScreen.localDay o ti) (o / 86400)).mpr h.month
  obtain ⟨hyesterday, htomorrow, hmonday⟩ := namedDay_self (PredictionScreen.localDay o ti)
  have hfirst : (ofDayNumber (PredictionScreen.localDay o ti)).firstOfMonth.dayNumber =
      namedDay (PredictionScreen.localDay o ti) (PredictionScreen.localDay o ti) .monthly := by
    rw [dayNumber_firstOfMonth, dayNumber_ofDayNumber]
    rfl
  rw [PredictionScreen.timestamps_eq, hday]
  simp only [periodDay, tabsType, hyesterday, htomorrow, hmonday, hweek, hmonth, hfirst]
  have hsub : PredictionScreen.localDay o ti + o / 86400 - 1 =
      PredictionScreen.localDay o ti - 1 + o / 86400 := by
    omega
  have hadd : PredictionScreen.localDay o ti + o / 86400 + 1 =
      PredictionScreen.localDay o ti + 1 + o / 86400 := by
    omega
  rw [hsub, hadd]
  rfl

/-- **The tabs of what is delivered**: for each period what the storage has for
the day of the device, if the document of the server's day covers it. -/
theorem tabsOf_delivered (store : Store) (z : Sign) {k : Int} (hk : Modern k) {o : Int}
    {ti : ℚ} (h : PredictionScreen.Unshifted o ti) :
    PredictionScreen.tabsOf o ti
      (screenHoroscopes (document (contentsOn (fun _ _ => store) z (dayDates k)) hk).horoscope) =
      PredictionScreen.shown (storedTabs store z k (PredictionScreen.localDay o ti)) := by
  obtain ⟨hdays, hweek, hmonth, hyear⟩ := fetched_eq store z hk
  have hnone : storedTab store z k .year (periodDay (PredictionScreen.localDay o ti) .year) = none :=
    if_neg List.not_mem_nil
  unfold PredictionScreen.tabsOf PredictionScreen.handleFetchedHoroscopes PredictionScreen.newHoroscopes
  rw [timestamps_unshifted h, Option.getD_some]
  simp only at hdays hweek hmonth hyear ⊢
  rw [hdays, hweek, hmonth, hyear]
  simp only [hasHoroscopeWithDate_candidates]
  unfold storedTabs
  simp only [Period.all, List.map_cons, List.map_nil, Period.key, hnone]
  rfl

theorem storedText_eq (store : Store) (z : Sign) (k : Int) (p : Period) (day : Int) :
    storedText store z k p day =
      ((storedTab store z k p day).map PredictionScreen.HoroscopeDTO.content).getD "" := by
  unfold storedText storedTab
  split
  · have hempty : Json.cstr "" = "" := by decide
    rw [Option.map_map]
    rcases found store z (tabsType p) day with _ | content
    · exact hempty
    · rfl
  · rfl

/-- The titles and the texts that are shown of tabs. -/
theorem map_shown : ∀ all : List (String × Option PredictionScreen.HoroscopeDTO),
    (PredictionScreen.shown all).map (fun tab => (tab.1, tab.2.content)) =
      (all.map fun tab => (tab.1, (tab.2.map PredictionScreen.HoroscopeDTO.content).getD "")).filter
        fun tab => tab.2 ≠ ""
  | [] => rfl
  | (title, h) :: all => by
    have ih := map_shown all
    unfold PredictionScreen.shown at ih ⊢
    rcases h with _ | h
    · simpa using ih
    · by_cases hempty : h.content = ""
      · simpa [hempty] using ih
      · simpa [hempty] using ih

/-- The periods under whose titles something is shown on a device. -/
def shownPeriods (store : Store) (z : Sign) (k k' : Int) : List Period :=
  Period.all.filter fun p => storedText store z k p (periodDay k' p) ≠ ""

theorem shown_storedTabs (store : Store) (z : Sign) (k k' : Int) :
    (PredictionScreen.shown (storedTabs store z k k')).map (fun tab => (tab.1, tab.2.content)) =
      (shownPeriods store z k k').map fun p => (p.key, storedText store z k p (periodDay k' p)) := by
  rw [map_shown, storedTabs, List.map_map, shownPeriods, List.filter_map]
  simp only [Function.comp_def, ← storedText_eq]

/-- What the screen shows that has a document of the storage and a time. -/
theorem model_shows (store : Store) (z : Sign) {k : Int} (hk : Modern k) {o : Int}
    {ti : ℚ}
    (hclock : PredictionScreen.Unshifted o ti) {s : PredictionScreen.Replies}
    (hs : (PredictionScreen.replies o).Reach EventSystem.anyEvent s) (htime : s.time = some ti)
    (hfetched : s.fetched = some
      (screenHoroscopes (document (contentsOn (fun _ _ => store) z (dayDates k)) hk).horoscope)) :
    let k' := PredictionScreen.localDay o ti
    s.model.tabsTitles = (shownPeriods store z k k').map Period.key ∧
      s.model.predictions =
        (shownPeriods store z k k').map fun p => storedText store z k p (periodDay k' p) := by
  obtain ⟨htitles, hpredictions, -⟩ := (PredictionScreen.joined_of_reach hs).done ti _ htime hfetched
  have hshown := shown_storedTabs store z k (PredictionScreen.localDay o ti)
  rw [htitles, hpredictions, tabsOf_delivered store z hk hclock]
  constructor
  · have hfirst := congrArg (List.map Prod.fst) hshown
    rw [List.map_map, List.map_map] at hfirst
    exact hfirst
  · have hsecond := congrArg (List.map Prod.snd) hshown
    rw [List.map_map, List.map_map] at hsecond
    exact hsecond

/-- **What the screen shows of the storage.** Let the server make the document
of a sign on one of its days, without an event that disturbs a call in flight,
and let the screen, after any run, have the replies to its load: this document
and the time, on an unshifted clock. Then it shows a title for each period for
whose day on the device the document has a text, and under it the text that
the storage has for the sign and that day. -/
theorem shown_eq (store : Store) {es : List Event} {offset k : Int} (hk : Modern k)
    (hrun : arraysMap.Run Flight.Undisturbed ⟨[], []⟩ es) (hday : ∀ e ∈ es, OnDay offset k e) {z : Sign}
    (hz : (run (fun _ _ => store) es).flight.Finished z) {zodiac : ZodiacTypes}
    (hname : zodiac.name = z.name) {o : Int} {ti : ℚ} (hclock : PredictionScreen.Unshifted o ti)
    {s : PredictionScreen.Replies}
    (hs : (PredictionScreen.replies o).Reach EventSystem.anyEvent s) (htime : s.time = some ti)
    (hfetched : s.fetched = delivered (run (fun _ _ => store) es).sets zodiac) :
    let k' := PredictionScreen.localDay o ti
    s.model.tabsTitles = (shownPeriods store z k k').map Period.key ∧
      s.model.predictions =
        (shownPeriods store z k k').map fun p => storedText store z k p (periodDay k' p) := by
  rw [delivered, parse_snapshot _ hk hrun hday hz hname, Option.map_some] at hfetched
  exact model_shows store z hk hclock hs htime hfetched

/-! ### The fifth of November 2017 -/

/-- The storage has the prediction of one sign for that day. -/
def novemberStore (path : String) : Option Server.Document :=
  if path = "storage/days/leo/5.11.2017" then some ⟨some "text"⟩ else none

/-- The server makes the document of the sign at noon. -/
def novemberRun : List Event :=
  oneSign .leo 0 (standing 1509879600000) (standing 1509879600000) types

theorem novemberRun_onDay : ∀ e ∈ novemberRun, OnDay 0 17475 e := by
  have hnoon : localDay 0 1509879600000 = 17475 := by decide
  intro e he
  refine ⟨standing 1509879600000, fun _ => ⟨hnoon, hnoon⟩, ?_⟩
  rcases List.mem_cons.mp he with rfl | he
  · rfl
  · obtain ⟨t, -, rfl⟩ := List.mem_map.mp he
    rfl

/-- The screen in UTC+1, after both replies. -/
def novemberReplies : PredictionScreen.Replies :=
  (PredictionScreen.replies 3600).exec PredictionScreen.constructed
    [.horoscopesFetched ((delivered (run (fun _ _ => novemberStore) novemberRun).sets .leo).getD .none),
      .serverTime 1509879600]

theorem november_shows : novemberReplies.model.tabsTitles = ["today"] ∧
    novemberReplies.model.predictions = ["text"] := by
  have hmodern : Modern 17475 := ⟨by decide, by decide⟩
  have hparse := @parse_snapshot (fun _ _ => novemberStore) novemberRun 0 17475 hmodern (by decide +kernel)
    novemberRun_onDay .leo (by decide +kernel) .leo rfl
  have hshown := @shown_eq novemberStore novemberRun 0 17475 hmodern (by decide +kernel) novemberRun_onDay
    .leo (by decide +kernel) .leo rfl 3600 1509879600
    ⟨by decide +kernel, by decide +kernel, by decide +kernel, by decide +kernel⟩ novemberReplies
    ⟨PredictionScreen.constructed, rfl, EventSystem.ReachFrom.exec _ _ (by decide +kernel)⟩ rfl
    (by rw [delivered, hparse]; rfl)
  have hlocal : PredictionScreen.localDay 3600 1509879600 = 17475 := by decide +kernel
  have hperiods : shownPeriods novemberStore .leo 17475 17475 = [.today] := by decide +kernel
  have htext : storedText novemberStore .leo 17475 .today (periodDay 17475 .today) = "text" := by
    decide +kernel
  simp only [hlocal, hperiods, List.map_cons, List.map_nil, htext] at hshown
  exact hshown

end Delivery
end Horo
