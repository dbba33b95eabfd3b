/-
# From the pages of the site to the screen

An update reads the sixty pages of the site into the storage, the documents of
the signs are made of it, and a device shows one of them. When the pages are
those of the server's day, each with the header of its date, the device shows
on this day what they say, whatever the order in which pages, writes, contents
and replies have arrived.

Key definitions: `Edition`, `storeAfter`.
Key theorems: `writeOf_page`, `storeAfter_expected`, `edition_shown`.
-/
import Horo.Delivery
import Horo.Server.HoroscopesUpdater
import Horo.Server.PageText

namespace Horo
namespace Delivery

open Lib Calendar EcmaString Server HoroscopesService HoroscopesUpdater
open PageParser (Page parse)

/-! ### The pages of a day -/

/-- The pages that the site has for the tabs and the signs on a day. -/
structure Edition (k : Int) where
  page : Request → Page
  /-- The sign of an index of the site. -/
  signOf : Fin 12 → Sign
  injective : Function.Injective signOf
  classed : ∀ r : Request, r.1 ∈ tabsTypes → (page r).Classed
  sign_eq : ∀ r : Request, r.1 ∈ tabsTypes → (page r).sign = (signOf r.2).name
  header : ∀ r : Request, r.1 ∈ tabsTypes → ∃ header rest,
    Header (ofDayNumber (namedDay k k r.1)) r.1 header ∧ trim (page r).text.toList = header ++ rest

namespace Edition

variable {k : Int} (e : Edition k)

/-- What the page says. -/
def text (r : Request) : String := String.ofList (trim (e.page r).text.toList)

def responses (r : Request) : Response := .page (e.page r).root

/-- What is to be written of the page. -/
def expected (r : Request) : String × Document :=
  (storagePath (e.signOf r.2) r.1 (dayString (namedDay k k r.1)), ⟨some (e.text r)⟩)

variable {e}

/-- A header begins with what a C string can have. -/
theorem exists_cons_of_header {d : Date} {t : TabsType} {header : List Char} (h : Header d t header) :
    ∃ c cs, header = c :: cs ∧ c ≠ '\x00' := by
  have hfirst : ∀ {name : List Char} (rest : List Char), name.map Char.toLower <+: monthName d →
      ∃ c cs, name ++ ' ' :: rest = c :: cs ∧ c ≠ '\x00' := by
    intro name rest hname
    cases name with
    | nil => exact ⟨' ', rest, rfl, by decide⟩
    | cons c name =>
      refine ⟨c, name ++ ' ' :: rest, rfl, ?_⟩
      rintro rfl
      have hletter := letter_of_mem (hname.subset List.mem_cons_self)
      exact absurd hletter.1 (by decide)
  cases h with
  | day _ hname _ => exact hfirst _ (hname ▸ List.take_prefix _ _)
  | month hname _ _ => exact hfirst _ (by rw [hname])

theorem parse_page {r : Request} (hr : r.1 ∈ tabsTypes) (before : PageParser.Variables) :
    parse (e.page r).root before = ⟨(e.signOf r.2).name, (e.page r).text⟩ := by
  obtain ⟨header, rest, hheader, htext⟩ := e.header r hr
  obtain ⟨c, cs, rfl, -⟩ := exists_cons_of_header hheader
  have hne : (e.page r).text ≠ "" := by
    intro hempty
    rw [hempty] at htext
    exact List.cons_ne_nil _ _ htext.symm
  rw [(e.page r).parse_eq (e.classed r hr) hne, e.sign_eq r hr]

/-- **A page is written under the date of its tab.** -/
theorem writeOf_page {r : Request} (hr : r.1 ∈ tabsTypes) (before : PageParser.Variables) :
    writeOf r (parse (e.page r).root before) = some (e.expected r) := by
  obtain ⟨header, rest, hheader, htext⟩ := e.header r hr
  have hne : HoroscopesParser.dateString (ofDayNumber (namedDay k k r.1)) ≠ [] := by
    simp [HoroscopesParser.dateString]
  rw [parse_page hr, writeOf, writeHoroscope, htext, dateStringFromPredictionText_header hheader,
    if_neg hne,
    expected, text, htext]
  rfl

/-- No page does harm. -/
theorem harmless {s : Update} {event : HoroscopesUpdater.Event} (ha : admits s event) :
    Harmless e.responses s event := by
  cases event with
  | written r => trivial
  | response r =>
    change writeOf r (parse (e.page r).root s.parsed) ≠ none
    rw [writeOf_page ha.2.1]
    exact Option.some_ne_none _

/-- What has been handed over for writing is what the pages say. -/
def Written (e : Edition k) (s : Update) : Prop :=
  ∀ w ∈ s.sets, w.1.1 ∈ tabsTypes ∧ w.2 = e.expected w.1

theorem Written.step {s : Update} (h : Written e s) {event : HoroscopesUpdater.Event}
    (ha : admits s event) : Written e (HoroscopesUpdater.step e.responses s event) := by
  cases event with
  | written r =>
    intro w hw
    change w ∈ (indexCallback r s).sets at hw
    rw [indexCallback_sets] at hw
    exact h w hw
  | response r =>
    have hresponse : HoroscopesUpdater.step e.responses s (.response r) =
        handleResponse r (.page (e.page r).root) s := rfl
    rw [hresponse, handleResponse, writeOf_page ha.2.1]
    intro w hw
    rcases List.mem_append.mp hw with hw | hw
    · exact h w hw
    · obtain rfl := List.mem_singleton.mp hw
      exact ⟨ha.2.1, rfl⟩

/-- **An update of the pages ends**, with each page written and nothing else. -/
theorem update_written {parsed : PageParser.Variables} {es : List HoroscopesUpdater.Event}
    (hrun : (update e.responses).Run EventSystem.anyEvent (beginUpdate parsed) es)
    (hover : Over ((update e.responses).exec (beginUpdate parsed) es)) :
    ((update e.responses).exec (beginUpdate parsed) es).completions = 1 ∧
      (∀ r : Request, r.1 ∈ tabsTypes →
        (r, e.expected r) ∈ ((update e.responses).exec (beginUpdate parsed) es).sets) ∧
      Written e ((update e.responses).exec (beginUpdate parsed) es) := by
  have hgood : Good e.responses ((update e.responses).exec (beginUpdate parsed) es) :=
    hrun.inv (good_beginUpdate e.responses parsed) fun _ _ hg ha _ => hg.step ha
  have halive : Alive ((update e.responses).exec (beginUpdate parsed) es) :=
    hrun.inv ⟨rfl, fun _ _ h => by cases h⟩ fun _ _ hs ha _ => (alive_step_iff ha hs).mpr (harmless ha)
  have hunspoiled := hgood.unspoiled halive hover
  refine ⟨hunspoiled.completed, fun r hr => ?_, hrun.inv (P := Written e) (fun _ h => nomatch h) ?_⟩
  · exact hunspoiled.sets r _ _ _ hr rfl (parse_page hr)
      (parse_page hr PageParser.initial ▸ writeOf_page hr _)
  · exact fun _ _ hw ha _ => hw.step ha

/-! ### The storage after an update -/

theorem dayString_inj {d d' : Int} : dayString d = dayString d' ↔ d = d' := by
  refine ⟨fun h => ?_, fun h => by rw [h]⟩
  have hdate := dateString_injective (String.ofList_injective h)
  have hday := congrArg Date.dayNumber hdate
  rwa [dayNumber_ofDayNumber, dayNumber_ofDayNumber] at hday

/-- The parts of a path. -/
theorem storagePath_parts {z z' : Sign} {t t' : TabsType} {d d' : String}
    (h : storagePath z t d = storagePath z' t' d') :
    horoTypeByTabsType t = horoTypeByTabsType t' ∧ z = z' ∧ d = d' := by
  have htype : ∀ t, '/' ∉ (horoTypeByTabsType t).toList ∧ (horoTypeByTabsType t).toList ≠ [] := by decide
  have hname : ∀ z : Sign, '/' ∉ z.name.toList ∧ z.name.toList ≠ [] := by decide
  have hslash : "/".toList = ['/'] := rfl
  have hlist := congrArg String.toList h
  simp only [storagePath, String.toList_append, List.append_assoc, hslash, List.singleton_append] at hlist
  have hparts := congrArg (separateString · '/') (List.append_cancel_left hlist)
  simp only [List.cons_append, separateString_append (htype t).1 (htype t).2,
    separateString_append (htype t').1 (htype t').2, separateString_append (hname z).1 (hname z).2,
    separateString_append (hname z').1 (hname z').2, List.cons.injEq] at hparts
  obtain ⟨hsame, hsign, -⟩ := hparts
  have htypes := String.toList_injective hsame
  obtain rfl := Sign.name_injective (String.toList_injective hsign)
  refine ⟨htypes, rfl, ?_⟩
  have hpath : storagePath z t' d = storagePath z t' d' := by
    rw [← h, storagePath, storagePath, htypes]
  exact storagePath_inj.mp hpath

/-- The tabs of a day are written under paths of their own. -/
theorem expected_path_injective {r r' : Request} (hr : r.1 ∈ tabsTypes) (hr' : r'.1 ∈ tabsTypes)
    (h : (e.expected r).1 = (e.expected r').1) : r = r' := by
  obtain ⟨t, i⟩ := r
  obtain ⟨t', i'⟩ := r'
  obtain ⟨htype, hsign, hdate⟩ := storagePath_parts h
  have hindex : i = i' := e.injective hsign
  have hday : namedDay k k t = namedDay k k t' := dayString_inj.mp hdate
  obtain ⟨hyesterday, htomorrow, -⟩ := namedDay_self k
  have htoday : namedDay k k .today = k := rfl
  have htab : t = t' := by
    simp only [tabsTypes, List.mem_cons, List.not_mem_nil, or_false] at hr hr' htype
    rcases hr with rfl | rfl | rfl | rfl | rfl <;> rcases hr' with rfl | rfl | rfl | rfl | rfl <;>
      first
        | rfl
        | exact absurd htype (by decide)
        | omega
  rw [htab, hindex]

end Edition

/-- The storage after writes: what was written last under a path. -/
def storeAfter (old : Store) (sets : List (Request × String × Document))
    (path : String) : Option Document :=
  match (sets.map Prod.snd).reverse.lookup path with
  | some data => some data
  | none => old path

namespace Edition

variable {k : Int} {e : Edition k}

/-- **After an update the storage has the pages.** -/
theorem storeAfter_expected {s : Update} (hwritten : Written e s) {r : Request} (hr : r.1 ∈ tabsTypes)
    (hmem : (r, e.expected r) ∈ s.sets) (old : Store) :
    storeAfter old s.sets (e.expected r).1 = some ⟨some (e.text r)⟩ := by
  have hlookup : (s.sets.map Prod.snd).reverse.lookup (e.expected r).1 = some ⟨some (e.text r)⟩ := by
    refine lookup_of_forall (fun w hw hpath => ?_) ⟨e.expected r, ?_, rfl⟩
    · obtain ⟨⟨r', w'⟩, hw', rfl⟩ := List.mem_map.mp (List.mem_reverse.mp hw)
      obtain ⟨hr', hexpected⟩ := hwritten (r', w') hw'
      simp only at hr' hexpected hpath
      subst hexpected
      rw [expected_path_injective hr' hr hpath]
      rfl
    · exact List.mem_reverse.mpr (List.mem_map_of_mem hmem)
  rw [storeAfter, hlookup]

/-- The text of a page is not empty. -/
theorem cstr_text_ne {r : Request} (hr : r.1 ∈ tabsTypes) : Json.cstr (e.text r) ≠ "" := by
  obtain ⟨header, rest, hheader, htext⟩ := e.header r hr
  obtain ⟨c, cs, rfl, hc⟩ := exists_cons_of_header hheader
  intro h
  rw [text, htext, Json.cstr, String.toList_ofList, List.cons_append,
    @List.takeWhile_cons_of_pos _ (fun c => decide (c ≠ '\x00')) _ _ (decide_eq_true hc)] at h
  exact List.cons_ne_nil _ _ (String.ofList_injective h)

/-- For the day of the pages the document covers every period but the year. -/
theorem mem_coveredDays {p : Period} (hp : tabsType p ∈ tabsTypes) (k : Int) :
    periodDay k p ∈ coveredDays k p := by
  obtain ⟨hyesterday, htomorrow, -⟩ := namedDay_self k
  cases p with
  | yesterday => simp [periodDay, tabsType, coveredDays, hyesterday]
  | today => simp [periodDay, tabsType, coveredDays, namedDay]
  | tomorrow => simp [periodDay, tabsType, coveredDays, htomorrow]
  | week => simp [periodDay, tabsType, coveredDays]
  | month => simp [periodDay, tabsType, coveredDays]
  | year => exact absurd hp (by decide)

/-- The periods of the tabs. -/
def periods : List Period := [.yesterday, .today, .tomorrow, .week, .month]

theorem storedText_expected {s : Update} (hwritten : Written e s)
    (hall : ∀ r : Request, r.1 ∈ tabsTypes → (r, e.expected r) ∈ s.sets) (old : Store)
    (i : Fin 12) {p : Period} (hp : tabsType p ∈ tabsTypes) :
    storedText (storeAfter old s.sets) (e.signOf i) k p (periodDay k p) =
      Json.cstr (e.text (tabsType p, i)) := by
  have hstore := storeAfter_expected hwritten hp (hall (tabsType p, i) hp) old
  have hfound : found (storeAfter old s.sets) (e.signOf i) (tabsType p) (periodDay k p) =
      some (e.text (tabsType p, i)) := by
    have hdata : getDocumentData (storeAfter old s.sets (e.expected (tabsType p, i)).1) =
        some (e.text (tabsType p, i)) := by
      rw [hstore]
      rfl
    exact hdata
  rw [storedText, if_pos (mem_coveredDays hp k), hfound, Option.getD_some]

/-- After an update every period but the year has a text. -/
theorem shownPeriods_expected {s : Update} (hwritten : Written e s)
    (hall : ∀ r : Request, r.1 ∈ tabsTypes → (r, e.expected r) ∈ s.sets) (old : Store)
    (i : Fin 12) : shownPeriods (storeAfter old s.sets) (e.signOf i) k k = periods := by
  have hshown : ∀ p ∈ periods,
      storedText (storeAfter old s.sets) (e.signOf i) k p (periodDay k p) ≠ "" := by
    intro p hp
    have hp' : tabsType p ∈ tabsTypes := by
      revert p
      decide
    rw [storedText_expected hwritten hall old i hp']
    exact cstr_text_ne hp'
  have hyear : storedText (storeAfter old s.sets) (e.signOf i) k .year (periodDay k .year) = "" :=
    if_neg List.not_mem_nil
  have hsplit : Period.all = periods ++ [.year] := rfl
  rw [shownPeriods, hsplit, List.filter_append,
    List.filter_eq_self.mpr fun p hp => decide_eq_true (hshown p hp)]
  simp [hyear]

/-- **From the site to the screen.** Let an update read the pages of the
server's day to its end, in any order of pages and writes, and let the document
of a sign be made of the storage that it leaves. A device with that day, whose
clock is not shifted, shows after any run with this document and the time the
five titles of the tabs, and under each the text of its page. -/
theorem edition_shown (hk : Modern k) (e : Edition k) (parsed : PageParser.Variables)
    {pages : List HoroscopesUpdater.Event}
    (hpages : (update e.responses).Run EventSystem.anyEvent (beginUpdate parsed) pages)
    (hover : Over ((update e.responses).exec (beginUpdate parsed) pages)) (old : Store)
    {es : List Server.Event} {offset : Int} (hrun : arraysMap.Run Flight.Undisturbed ⟨[], []⟩ es)
    (hday : ∀ event ∈ es, OnDay offset k event) (i : Fin 12) :
    let sets := ((update e.responses).exec (beginUpdate parsed) pages).sets
    let documents := run (fun _ _ => storeAfter old sets) es
    documents.flight.Finished (e.signOf i) →
    ∀ {zodiac : ZodiacTypes}, zodiac.name = (e.signOf i).name →
    ∀ {o : Int} {ti : ℚ}, PredictionScreen.Unshifted o ti → PredictionScreen.localDay o ti = k →
    ∀ {s : PredictionScreen.Replies}, (PredictionScreen.replies o).Reach EventSystem.anyEvent s →
    s.time = some ti → s.fetched = delivered documents.sets zodiac →
      s.model.tabsTitles = periods.map Period.key ∧
        s.model.predictions = periods.map fun p => Json.cstr (e.text (tabsType p, i)) := by
  intro sets documents hfinished zodiac hname o ti hclock hlocal s hs htime hfetched
  obtain ⟨-, hall, hwritten⟩ := update_written hpages hover
  rw [delivered, parse_snapshot _ hk hrun hday hfinished hname, Option.map_some] at hfetched
  have hshows := model_shows _ (e.signOf i) hk hclock hs htime hfetched
  simp only [hlocal] at hshows
  rw [shownPeriods_expected hwritten hall old i] at hshows
  obtain ⟨htitles, hpredictions⟩ := hshows
  refine ⟨htitles, hpredictions.trans (List.map_congr_left fun p hp => ?_)⟩
  have hp' : tabsType p ∈ tabsTypes := by
    revert p
    decide
  exact storedText_expected hwritten hall old i hp'

end Edition

/-! ### The pages of the fifth of November 2017 -/

/-- A page with one content. -/
def plainPage (sign text : String) : Page where
  nodeName := "html"
  attributes := []
  childNodes := [PageParser.page sign [PageParser.content text]]
  one_body := Nat.le_refl 1

theorem plainPage_text (sign text : String) : (plainPage sign text).text = text := by
  have hbelow : (plainPage sign text).text = PageParser.textBelow (PageParser.content text) := rfl
  rw [hbelow, PageParser.textBelow_eq rfl]
  simp [PageParser.content, PageParser.textOf, PageParser.textOfChildren, PageParser.isClassed]

theorem plainPage_classed {sign : String} (h : sign ≠ "") (text : String) :
    (plainPage sign text).Classed := by
  intro p hp
  have hplace : p ∈ [(⟨[(plainPage sign text).root, PageParser.page sign [PageParser.content text]],
    PageParser.content text⟩ : PageParser.Place)] := hp
  rw [List.mem_singleton.mp hplace]
  exact ⟨PageParser.page sign [PageParser.content text], by simp, rfl, h⟩

def novemberHeader : TabsType → String
  | .yesterday => "Nov 4, 2017 - "
  | .today => "Nov 5, 2017 - "
  | .tomorrow => "Nov 6, 2017 - "
  | .weekly => "Oct 30, 2017 - "
  | .monthly => "November 2017 "
  | .year => ""

theorem november_header {t : TabsType} (ht : t ∈ tabsTypes) :
    Header (ofDayNumber (namedDay 17475 17475 t)) t (novemberHeader t).toList := by
  have hdays : ∀ t ∈ [TabsType.yesterday, .today, .tomorrow, .weekly], ∃ name day,
      (ofDayNumber (namedDay 17475 17475 t)).day = day ∧
        (ofDayNumber (namedDay 17475 17475 t)).year = 2017 ∧
      name.map Char.toLower = (monthName (ofDayNumber (namedDay 17475 17475 t))).take 3 ∧
      (novemberHeader t).toList =
        name ++ ' ' :: (intDigits day ++ ',' :: ' ' :: (intDigits 2017 ++ ' ' :: '-' :: [' '])) := by
    intro t ht
    simp only [List.mem_cons, List.not_mem_nil, or_false] at ht
    rcases ht with rfl | rfl | rfl | rfl
    · exact ⟨"Nov".toList, 4, by decide +kernel⟩
    · exact ⟨"Nov".toList, 5, by decide +kernel⟩
    · exact ⟨"Nov".toList, 6, by decide +kernel⟩
    · exact ⟨"Oct".toList, 30, by decide +kernel⟩
  by_cases hmonth : t = .monthly
  · subst hmonth
    exact @Header.month _ "November".toList 2017 (by decide +kernel) (by decide +kernel) (by decide +kernel)
  · have hday : t ∈ [TabsType.yesterday, .today, .tomorrow, .weekly] := by
      revert t
      decide
    obtain ⟨name, day, hdate, hyear, hname, htext⟩ := hdays t hday
    rw [htext, ← hdate]
    exact .day hday hname hyear

def novemberSign (i : Fin 12) : Sign := Server.zodiacs.get i

def novemberPage (r : Request) : Page :=
  plainPage (novemberSign r.2).name (novemberHeader r.1 ++ "Courage.")

def novemberEdition : Edition 17475 where
  page := novemberPage
  signOf := novemberSign
  injective := by
    have hget : Function.Injective Server.zodiacs.get := List.nodup_iff_injective_get.mp (by decide)
    exact hget
  classed r _ := plainPage_classed ((by decide : ∀ z : Sign, z.name ≠ "") _) _
  sign_eq _ _ := rfl
  header r hr := by
    have htrim : ∀ t ∈ tabsTypes, trim (novemberHeader t ++ "Courage.").toList =
        (novemberHeader t).toList ++ "Courage.".toList := by decide +kernel
    refine ⟨_, "Courage.".toList, november_header hr, ?_⟩
    rw [novemberPage, plainPage_text]
    exact htrim _ hr

/-- All pages arrive, then all writes. -/
def novemberUpdate : List HoroscopesUpdater.Event := requests.map .response ++ requests.map .written

/-- What the update has handed over for writing. -/
def novemberSets : List (Request × String × Document) :=
  ((update novemberEdition.responses).exec (beginUpdate PageParser.initial) novemberUpdate).sets

/-- The storage after it. -/
def novemberPages : Store := storeAfter (fun _ => none) novemberSets

/-- The screen in UTC+1, after both replies. -/
def novemberDevice : PredictionScreen.Replies :=
  (PredictionScreen.replies 3600).exec PredictionScreen.constructed
    [.horoscopesFetched ((delivered (run (fun _ _ => novemberPages) novemberRun).sets .leo).getD .none),
      .serverTime 1509879600]

theorem november_edition_shown :
    novemberDevice.model.tabsTitles = ["yesterday", "today", "tomorrow", "week", "month"] ∧
      novemberDevice.model.predictions =
        ["Nov 4, 2017 - Courage.", "Nov 5, 2017 - Courage.", "Nov 6, 2017 - Courage.",
          "Oct 30, 2017 - Courage.", "November 2017 Courage."] := by
  have hmodern : Modern 17475 := ⟨by decide, by decide⟩
  have hfinished : (run (fun _ _ => novemberPages) novemberRun).flight.Finished
      (novemberEdition.signOf 6) := by decide +kernel
  have hparse := @parse_snapshot (fun _ _ => novemberPages) novemberRun 0 17475 hmodern
    (by decide +kernel) novemberRun_onDay .leo hfinished .leo rfl
  have hfetched : novemberDevice.fetched =
      delivered (run (fun _ _ => novemberPages) novemberRun).sets .leo := by
    rw [delivered, hparse]
    change some ((delivered (run (fun _ _ => novemberPages) novemberRun).sets .leo).getD .none) = _
    rw [delivered, hparse]
    rfl
  have hshown := @Edition.edition_shown 17475 hmodern novemberEdition PageParser.initial novemberUpdate
    (by decide +kernel) (by decide +kernel) (fun _ => none) novemberRun 0 (by decide +kernel)
    novemberRun_onDay 6 hfinished .leo rfl 3600 1509879600
    ⟨by decide +kernel, by decide +kernel, by decide +kernel, by decide +kernel⟩ (by decide +kernel)
    novemberDevice ⟨PredictionScreen.constructed, rfl,
      EventSystem.ReachFrom.exec _ _ (by decide +kernel)⟩ rfl hfetched
  have htexts : (Edition.periods.map fun p => Json.cstr (novemberEdition.text (tabsType p, 6))) =
      ["Nov 4, 2017 - Courage.", "Nov 5, 2017 - Courage.", "Nov 6, 2017 - Courage.",
        "Oct 30, 2017 - Courage.", "November 2017 Courage."] := by decide +kernel
  rw [htexts] at hshown
  exact hshown

end Delivery
end Horo
