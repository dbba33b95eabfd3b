/-
# The dates in the application's documents

`createTTYDocument` does not know the paths its contents were read at: it
computes the date of each tab once more when the contents have arrived. Here
the builder of `Horo.Server.TtyCreator` runs for a single sign, the clock
being read as `dateStringFromType` reads it.

* `carries_dates_iff`: the entries carry the dates they were read under exactly
  when, for every tab with a content, the clock names the same day both times.
-/
import Horo.Server.Dates
import Horo.Server.TtyCreator

namespace Horo
namespace Server

open Lib Lib.EventSystem EcmaDate

/-! ### A sign alone -/

/-- What the clock gives to `dateStringFromType` for each tab: `date`, and
`newDate` where it is read again. -/
abbrev Readings := TabsType → Int × Int

def datesAt (offset : Int) (readings : Readings) (type : TabsType) : String :=
  dateStringFromType offset (readings type).1 (readings type).2 type

/-- The run of one sign: the clock is read when the contents are asked for and
when the document is created; the answers come in any order. -/
def oneSign (z : Sign) (offset : Int) (asked labelled : Readings) (order : List TabsType) :
    List Event :=
  .start z (datesAt offset asked) :: order.map (.reply z · (datesAt offset labelled))

/-- The `type` of a tab's entry. -/
def entryType : TabsType → String
  | .yesterday => "yesterday"
  | .today => "today"
  | .tomorrow => "tomorrow"
  | .weekly => "week"
  | .monthly => "month"
  | .year => "year"

/-- Every entry of the documents has the content that was read for its tab, at
the path of the date it carries. -/
def CarriesDates (docs : Docs) (s : State) (z : Sign) : Prop :=
  ∀ d ∈ s.sets, ∀ e ∈ d.2, ∃ t, e.type = entryType t ∧
    s.contentRead docs z t = some e.content ∧ s.reads z t = some (storagePath z t e.date)

/-- The content that is found for a tab at the path that is asked for. -/
def contentAsked (docs : Docs) (z : Sign) (offset : Int) (asked : Readings) (t : TabsType) :
    Option String :=
  getDocumentData (docs z t (storagePath z t (datesAt offset asked t)))

/-- The days of the readings name one day for the tab. -/
def SameDay (offset : Int) (asked labelled : Readings) (t : TabsType) : Prop :=
  namedDay (localDay offset (asked t).1) (localDay offset (asked t).2) t =
    namedDay (localDay offset (labelled t).1) (localDay offset (labelled t).2) t

instance (offset : Int) (asked labelled : Readings) (t : TabsType) :
    Decidable (SameDay offset asked labelled t) := inferInstanceAs (Decidable (_ = _))

/-! ### The document of the run -/

theorem entryType_injective {t t' : TabsType} (h : entryType t = entryType t') : t = t' := by
  revert h
  cases t <;> cases t' <;> decide

/-- The document of a dictionary. -/
def documentOf (d : TabsType → Option String) (date : TabsType → String) : List Entry :=
  createTTYDocument (d .yesterday) (d .today) (d .tomorrow) (d .weekly) (d .monthly) (d .year) date

theorem mem_documentOf {d : TabsType → Option String} {date : TabsType → String} {e : Entry} :
    e ∈ documentOf d date ↔ ∃ t, d t = some e.content ∧ e.type = entryType t ∧ e.date = date t := by
  have hpush : ∀ type content date, e ∈ pushEntry type content date ↔
      content = some e.content ∧ e.type = type ∧ e.date = date := by
    intro type content date
    obtain ⟨type', content', date'⟩ := e
    cases content with
    | none => simp [pushEntry]
    | some c => simp [pushEntry]; tauto
  simp only [documentOf, createTTYDocument, List.mem_append, hpush]
  constructor
  · rintro (((((h | h) | h) | h) | h) | h) <;> exact ⟨_, h⟩
  · rintro ⟨t, h⟩
    cases t <;> simp only [entryType] at h <;> simp [h]

theorem startTabs_sets (z : Sign) (date : TabsType → String) : ∀ (ts : List TabsType) (s : State),
    (startTabs z date ts s).sets = s.sets
  | [], _ => rfl
  | _ :: ts, _ => startTabs_sets z date ts _

/-- An answer creates a document when its sign waits for no other. -/
theorem step_reply_sets (docs : Docs) (s : State) (z : Sign) (t : TabsType)
    (date : TabsType → String) :
    (step docs s (.reply z t date)).sets = s.sets ++
      if (s.flight.step (.reply z t date)).InFlight z then []
      else [("horoscopes/" ++ z.name,
        documentOf (Function.update s.globals.dictionary t (s.contentRead docs z t)) date)] := by
  simp only [step, handleContent, State.contentRead]
  split <;> simp [createDocument, documentOf]

section Replies

variable {docs : Docs} {s : State} {z : Sign} {t : TabsType} {ts : List TabsType}
  (date : TabsType → String)

/-- The first of the answers that a sign alone waits for. -/
theorem pending_reply (ht : t ∉ ts) (hpending : ∀ p, p ∈ s.flight.pending ↔ p.1 = z ∧ p.2 ∈ t :: ts) :
    ∀ p, p ∈ (s.flight.step (.reply z t date)).pending ↔ p.1 = z ∧ p.2 ∈ ts := by
  rintro ⟨w, t'⟩
  rw [Flight.mem_reply, hpending]
  simp only [List.mem_cons]
  constructor
  · rintro ⟨⟨rfl, rfl | h⟩, hnot⟩
    · exact absurd ⟨rfl, rfl⟩ hnot
    · exact ⟨rfl, h⟩
  · rintro ⟨rfl, h⟩
    exact ⟨⟨rfl, .inr h⟩, fun ⟨_, he⟩ => ht (he ▸ h)⟩

theorem inFlight_reply (ht : t ∉ ts)
    (hpending : ∀ p, p ∈ s.flight.pending ↔ p.1 = z ∧ p.2 ∈ t :: ts) :
    (s.flight.step (.reply z t date)).InFlight z ↔ ts ≠ [] := by
  rw [Flight.inFlight_iff]
  simp only [pending_reply date ht hpending, true_and]
  exact ⟨fun ⟨_, h⟩ => List.ne_nil_of_mem h, List.exists_mem_of_ne_nil ts⟩

/-- What is held when an answer has come: its content in place of what was in
the dictionary. -/
theorem update_eq_ite (hrest : t ∉ ts) :
    (fun t' => if t' ∈ ts then s.contentRead docs z t'
      else Function.update s.globals.dictionary t (s.contentRead docs z t) t') =
      fun t' => if t' ∈ t :: ts then s.contentRead docs z t' else s.globals.dictionary t' := by
  funext t'
  by_cases h : t' = t
  · subst h
    simp [hrest]
  · simp [h]

end Replies

/-- The answers to one sign leave its reads as they are, and the last of them
creates the document of the contents that were read. -/
theorem replies_spec (docs : Docs) (z : Sign) (date : TabsType → String) : ∀ (ts : List TabsType)
    (s : State), ts ≠ [] → ts.Nodup → (∀ p, p ∈ s.flight.pending ↔ p.1 = z ∧ p.2 ∈ ts) →
    ((ts.map (.reply z · date)).foldl (step docs) s).reads = s.reads ∧
      ((ts.map (.reply z · date)).foldl (step docs) s).sets = s.sets ++
        [("horoscopes/" ++ z.name, documentOf (fun t =>
          if t ∈ ts then s.contentRead docs z t else s.globals.dictionary t) date)]
  | [], _, hne, _, _ => absurd rfl hne
  | t :: ts, s, _, hnodup, hpending => by
    obtain ⟨ht, hnodup⟩ := List.nodup_cons.mp hnodup
    have hreads := step_reply_reads docs s z t date
    have hsets := step_reply_sets docs s z t date
    have hinFlight := inFlight_reply date ht hpending
    rw [← update_eq_ite ht]
    by_cases hlast : ts = []
    · subst hlast
      rw [if_neg fun h => hinFlight.mp h rfl] at hsets
      refine ⟨hreads, hsets.trans ?_⟩
      simp only [List.not_mem_nil, if_false]
    · have hnext : ∀ p, p ∈ (step docs s (.reply z t date)).flight.pending ↔ p.1 = z ∧ p.2 ∈ ts := by
        rw [step_flight]
        exact pending_reply date ht hpending
      have hcontent : (step docs s (.reply z t date)).contentRead docs z = s.contentRead docs z := by
        unfold State.contentRead
        rw [hreads]
      obtain ⟨ihreads, ihsets⟩ := replies_spec docs z date ts (step docs s (.reply z t date)) hlast
        hnodup hnext
      rw [if_pos (hinFlight.mpr hlast), List.append_nil] at hsets
      rw [hcontent, step_reply_dictionary, hsets] at ihsets
      exact ⟨ihreads.trans hreads, ihsets⟩

/-- **The document of a sign alone**: for each of the five tabs what was found
at the path asked for, with the date of the second reading. -/
theorem oneSign_spec (docs : Docs) (z : Sign) (offset : Int) (asked labelled : Readings)
    {order : List TabsType} (h : order.Perm types) :
    (∀ t ∈ types, (run docs (oneSign z offset asked labelled order)).reads z t =
      some (storagePath z t (datesAt offset asked t))) ∧
    (run docs (oneSign z offset asked labelled order)).sets =
      [("horoscopes/" ++ z.name, documentOf (fun t =>
        if t ∈ types then contentAsked docs z offset asked t else none) (datesAt offset labelled))] := by
  have hne : order ≠ [] := fun he => by simpa [he, types] using h.length_eq
  have hnodup : order.Nodup := h.nodup_iff.mpr (by decide)
  have hpending : ∀ p, p ∈ (step docs initial (.start z (datesAt offset asked))).flight.pending ↔
      p.1 = z ∧ p.2 ∈ order := by
    rintro ⟨w, t⟩
    rw [step_flight, Flight.mem_start, h.mem_iff]
    simp [initial]
  have hreads : ∀ t, (step docs initial (.start z (datesAt offset asked))).reads z t =
      if t ∈ types then some (storagePath z t (datesAt offset asked t)) else none := by
    intro t
    rw [step_start_reads]
    simp [initial]
  obtain ⟨hr, hs⟩ := replies_spec docs z (datesAt offset labelled) order
    (step docs initial (.start z (datesAt offset asked))) hne hnodup hpending
  refine ⟨fun t ht => ?_, ?_⟩
  · show ((order.map _).foldl (step docs) _).reads z t = _
    rw [hr, hreads, if_pos ht]
  · have hd : (fun t => if t ∈ order then
          (step docs initial (.start z (datesAt offset asked))).contentRead docs z t
          else (step docs initial (.start z (datesAt offset asked))).globals.dictionary t) =
        fun t => if t ∈ types then contentAsked docs z offset asked t else none := by
      funext t
      by_cases ht : t ∈ types
      · rw [if_pos (h.mem_iff.mpr ht), if_pos ht, State.contentRead, hreads, if_pos ht,
          Option.getD_some, contentAsked]
      · rw [if_neg (fun ht' => ht (h.mem_iff.mp ht')), if_neg ht, step_start_dictionary]
    rw [hd] at hs
    show ((order.map _).foldl (step docs) _).sets = _
    rw [hs]
    show (startTabs z (datesAt offset asked) types _).sets ++ _ = _
    rw [startTabs_sets]
    rfl

/-! ### The theorem -/

/-- **When the entries carry the dates of their contents.** In a run of one
sign, whatever the clock shows and in whatever order the contents arrive, every
entry carries the date its content was read under if and only if for every tab
with a content the clock names one day when it is asked for and when the
document is created. -/
theorem carries_dates_iff (docs : Docs) (z : Sign) (offset : Int) (asked labelled : Readings)
    {order : List TabsType} (h : order.Perm types) :
    CarriesDates docs (run docs (oneSign z offset asked labelled order)) z ↔
      ∀ t ∈ types, contentAsked docs z offset asked t ≠ none → SameDay offset asked labelled t := by
  obtain ⟨hreads, hsets⟩ := oneSign_spec docs z offset asked labelled h
  have hcontent : ∀ t ∈ types, (run docs (oneSign z offset asked labelled order)).contentRead docs z t =
      contentAsked docs z offset asked t := fun t ht => by
    rw [State.contentRead, hreads t ht, Option.getD_some, contentAsked]
  unfold CarriesDates
  simp only [hsets, List.mem_singleton, forall_eq, mem_documentOf]
  constructor
  · intro hall t ht hsome
    obtain ⟨content, hc⟩ := Option.ne_none_iff_exists'.mp hsome
    obtain ⟨t', htype, _, hpath⟩ := hall ⟨entryType t, content, datesAt offset labelled t⟩
      ⟨t, by rw [if_pos ht, hc], rfl, rfl⟩
    obtain rfl := entryType_injective htype
    rw [hreads t ht, Option.some_inj, storagePath_inj] at hpath
    exact dateStringFromType_inj.mp hpath
  · rintro hall ⟨type, content, date⟩ ⟨t, hc, htype, hdate⟩
    by_cases ht : t ∈ types
    · rw [if_pos ht] at hc
      have hsame := dateStringFromType_inj.mpr (hall t ht (by rw [hc]; simp))
      refine ⟨t, htype, (hcontent t ht).trans hc, ?_⟩
      rw [hreads t ht, hdate]
      exact congrArg (fun d => some (storagePath z t d)) hsame
    · rw [if_neg ht] at hc
      cases hc

/-- The clock stands still. -/
def standing (t : Int) : Readings := fun _ => (t, t)

/-- At noon on 31 December 2017. -/
def noon : Readings := standing 1514721600000

/-- One second before and one after the end of 2017. -/
def beforeMidnight : Readings := standing 1514764799000

def afterMidnight : Readings := standing 1514764801000

theorem noon_carries_dates :
    CarriesDates names (run names (oneSign .leo 0 noon noon types.reverse)) .leo :=
  (carries_dates_iff names .leo 0 noon noon (by decide)).mpr fun _ _ _ => rfl

/-- Across midnight the prediction that was read for the last day of the year
is labelled as that of the first. -/
theorem midnight_moves_dates :
    (beforeMidnight .monthly).2 ≤ (afterMidnight .yesterday).1 ∧
      (run names (oneSign .leo 0 beforeMidnight afterMidnight types)).reads .leo .today =
        some "storage/days/leo/31.12.2017" ∧
      ⟨"today", "leo", "1.1.2018"⟩ ∈
        (run names (oneSign .leo 0 beforeMidnight afterMidnight types)).sets.flatMap (·.2) ∧
      ¬ CarriesDates names (run names (oneSign .leo 0 beforeMidnight afterMidnight types)) .leo := by
  have hreads : (run names (oneSign .leo 0 beforeMidnight afterMidnight types)).reads .leo .today =
      some "storage/days/leo/31.12.2017" := by decide +kernel
  have hmem : ⟨"today", "leo", "1.1.2018"⟩ ∈
      (run names (oneSign .leo 0 beforeMidnight afterMidnight types)).sets.flatMap (·.2) := by
    decide +kernel
  refine ⟨by decide, hreads, hmem, fun h => ?_⟩
  obtain ⟨d, hd, he⟩ := List.mem_flatMap.mp hmem
  obtain ⟨t, htype, _, hpath⟩ := h d hd _ he
  obtain rfl : TabsType.today = t := entryType_injective htype
  rw [hreads] at hpath
  exact absurd hpath (by decide)

end Server
end Horo
