/-
# The documents of a whole run

`createTTYHoroscopes` over all the signs that were started. Each sign's
document is created once, when the last of its five answers has come,
whatever the order of the answers. It holds what the storage has under the
dates that it carries, whatever the storage has, exactly if no event disturbs a
call in flight and the clock gives the sign the same dates at both ends.

Key definitions: `created`, `asked`, `labelled`, `Holds`.
Key theorems: `created_once`, `lookup_sets`, `documents_hold_iff`.
-/
import Horo.Server.TtyDates

namespace Horo
namespace Server

open Lib Lib.EventSystem

/-! ### Once for each sign -/

/-- How often a document was created for a sign. -/
def created (s : State) (z : Sign) : ℕ := s.calls.countP fun c => c.signName = z

/-- The sign has all of its answers. -/
def Flight.Finished (f : Flight) (z : Sign) : Prop := z ∈ f.started ∧ ¬ f.InFlight z

instance (f : Flight) (z : Sign) : Decidable (f.Finished z) :=
  inferInstanceAs (Decidable (_ ∧ _))

theorem Flight.inFlight_start {f : Flight} {z w : Sign} {date : TabsType → String} :
    (f.step (.start z date)).InFlight w ↔ f.InFlight w ∨ w = z := by
  simp only [Flight.inFlight_iff, Flight.mem_start, exists_or, exists_and_left]
  have hsome : ∃ t, t ∈ types := ⟨.today, by decide⟩
  simp only [hsome, and_true]

theorem Flight.finished_start {f : Flight} {z w : Sign} {date : TabsType → String} (hz : z ∉ f.started) :
    (f.step (.start z date)).Finished w ↔ f.Finished w := by
  unfold Flight.Finished
  rw [Flight.inFlight_start]
  by_cases hw : w = z
  · subst hw
    exact iff_of_false (fun hf => hf.2 (.inr rfl)) fun hf => hz hf.1
  · simp [Flight.step, hw]

theorem Flight.finished_reply_of_ne {f : Flight} {z w : Sign} {t : TabsType} {date : TabsType → String}
    (hne : w ≠ z) : (f.step (.reply z t date)).Finished w ↔ f.Finished w := by
  refine and_congr Iff.rfl (not_congr ?_)
  simp only [Flight.inFlight_iff, Flight.mem_reply, hne, false_and, not_false_eq_true, and_true]

/-- A step creates the document of the sign whose last answer it is. -/
theorem created_step (docs : Docs) {s : State} (hg : s.flight.Good) {e : Event} (ha : s.flight.admits e)
    (h : ∀ z, created s z = if s.flight.Finished z then 1 else 0) (w : Sign) :
    created (step docs s e) w = if (step docs s e).flight.Finished w then 1 else 0 := by
  rw [step_flight]
  rcases e with ⟨z, date⟩ | ⟨z, t, date⟩
  · have hcalls : created (step docs s (.start z date)) w = created s w := by
      rw [created, created, step_start_calls]
    rw [hcalls, h w]
    exact if_congr (Flight.finished_start ha.2).symm rfl rfl
  · have hpending : (z, t) ∈ s.flight.pending := ha
    have hcalls : created (step docs s (.reply z t date)) w = created s w +
        if (s.flight.step (.reply z t date)).InFlight z then 0 else if z = w then 1 else 0 := by
      unfold created
      rw [step_reply_calls, List.countP_append]
      split
      · rfl
      · simp [List.countP_cons]
    rw [hcalls, h w]
    by_cases hw : w = z
    · subst hw
      have hwaits : s.flight.InFlight w := Flight.inFlight_iff.mpr ⟨t, hpending⟩
      rw [if_neg fun hf => hf.2 hwaits, if_pos rfl, Nat.zero_add]
      by_cases hlast : (s.flight.step (.reply w t date)).InFlight w
      · rw [if_pos hlast, if_neg fun hf => hf.2 hlast]
      · rw [if_neg hlast, if_pos ⟨(hg w t hpending).1, hlast⟩]
    · rw [if_neg (Ne.symm hw), ite_self, Nat.add_zero]
      exact if_congr (Flight.finished_reply_of_ne hw).symm rfl rfl

theorem created_run (docs : Docs) : ∀ (es : List Event) (s : State), s.flight.Good →
    arraysMap.Run anyEvent s.flight es → (∀ z, created s z = if s.flight.Finished z then 1 else 0) →
    ∀ z, created (es.foldl (step docs) s) z = if (es.foldl (step docs) s).flight.Finished z then 1 else 0
  | [], _, _, _, h => h
  | e :: es, s, hg, hr, h => by
    have hflight := step_flight docs s e
    refine created_run docs es (step docs s e) ?_ ?_ (created_step docs hg hr.1.1 h)
    · rw [hflight]
      exact hg.step e
    · rw [hflight]
      exact hr.2

theorem initial_good : initial.flight.Good := fun _ _ h => nomatch h

/-- **Each sign's document is created once**, in whatever order the answers
come and whatever they are: when the sign has all its answers, and not before. -/
theorem created_once (docs : Docs) {es : List Event} (hrun : arraysMap.Run anyEvent ⟨[], []⟩ es)
    (z : Sign) : created (run docs es) z = if (run docs es).flight.Finished z then 1 else 0 :=
  created_run docs es initial initial_good hrun (fun _ => rfl) z

section

variable {docs : Docs} {es : List Event} (hrun : arraysMap.Run anyEvent ⟨[], []⟩ es)
include hrun

theorem finished_of_mem_calls {c : Call} (hc : c ∈ (run docs es).calls) :
    (run docs es).flight.Finished c.signName := by
  by_contra hnot
  have hcount := created_once docs hrun c.signName
  rw [if_neg hnot] at hcount
  exact (List.countP_pos_iff.mpr ⟨c, hc, decide_eq_true rfl⟩).ne' hcount

theorem exists_call {z : Sign} (hz : (run docs es).flight.Finished z) :
    ∃ c ∈ (run docs es).calls, c.signName = z := by
  have hcount := created_once docs hrun z
  rw [if_pos hz] at hcount
  obtain ⟨c, hc, hname⟩ := List.countP_pos_iff.mp (hcount ▸ Nat.one_pos)
  exact ⟨c, hc, of_decide_eq_true hname⟩

theorem call_injective {c c' : Call} (hc : c ∈ (run docs es).calls) (hc' : c' ∈ (run docs es).calls)
    (hname : c.signName = c'.signName) : c = c' := by
  have hnodup : ((run docs es).calls.map Call.signName).Nodup := by
    rw [List.nodup_iff_count_le_one]
    intro z
    have hcount : ((run docs es).calls.map Call.signName).count z = created (run docs es) z := by
      rw [List.count_eq_countP, List.countP_map, created]
      rfl
    rw [hcount, created_once docs hrun z]
    split
    · exact Nat.le_refl 1
    · exact Nat.zero_le 1
  exact List.inj_on_of_nodup_map hnodup hc hc' hname

end

/-! ### What is asked for, and how it is labelled -/

/-- What `dateStringFromType` answers when the event happens. -/
def Event.dates : Event → TabsType → String
  | .start _ date => date
  | .reply _ _ date => date

/-- The dates under which the event asks for the contents of a sign. -/
def Event.asks (z : Sign) : Event → Option (TabsType → String)
  | .start w date => if w = z then some date else none
  | .reply _ _ _ => none

/-- The dates that a document has if the event is the last answer for its sign. -/
def Event.labels (z : Sign) : Event → Option (TabsType → String)
  | .start _ _ => none
  | .reply w _ date => if w = z then some date else none

/-- The dates under which the contents of a sign were asked for. -/
def asked (es : List Event) (z : Sign) : TabsType → String :=
  (es.reverse.findSome? (Event.asks z)).getD fun _ => ""

/-- The dates of the last answer for a sign. -/
def labelled (es : List Event) (z : Sign) : TabsType → String :=
  (es.reverse.findSome? (Event.labels z)).getD fun _ => ""

theorem asked_append (es : List Event) (e : Event) (z : Sign) :
    asked (es ++ [e]) z = (e.asks z).getD (asked es z) := by
  unfold asked
  rw [List.reverse_append, List.reverse_singleton, List.singleton_append, List.findSome?_cons]
  cases e.asks z <;> rfl

theorem labelled_append (es : List Event) (e : Event) (z : Sign) :
    labelled (es ++ [e]) z = (e.labels z).getD (labelled es z) := by
  unfold labelled
  rw [List.reverse_append, List.reverse_singleton, List.singleton_append, List.findSome?_cons]
  cases e.labels z <;> rfl

theorem run_append (docs : Docs) (es : List Event) (e : Event) :
    run docs (es ++ [e]) = step docs (run docs es) e := List.foldl_append

theorem run_flight (docs : Docs) (es : List Event) :
    (run docs es).flight = arraysMap.exec ⟨[], []⟩ es := by
  induction es using List.reverseRecOn with
  | nil => rfl
  | append_singleton es e ih =>
    rw [run_append, step_flight, ih, exec_append]
    rfl

/-- What a history leaves in the state: the contents are read under the dates
asked for, and the documents labelled by those of the last answer. -/
structure Recorded (es : List Event) (s : State) : Prop where
  started : ∀ z ∈ s.flight.started, .start z (asked es z) ∈ es
  reads : ∀ z ∈ s.flight.started, ∀ t ∈ types, s.reads z t = some (storagePath z t (asked es z t))
  dictionary : ∀ t, t ∉ types → s.globals.dictionary t = none
  arguments : ∀ c ∈ s.calls, ∀ t, t ∉ types → c.arguments t = none
  answered : ∀ c ∈ s.calls, ∃ t, .reply c.signName t (labelled es c.signName) ∈ es
  sets : s.sets = s.calls.map fun c =>
    ("horoscopes/" ++ c.signName.name, documentOf c.arguments (labelled es c.signName))

theorem Recorded.start {docs : Docs} {es : List Event} {s : State} (h : Recorded es s) {z : Sign}
    (date : TabsType → String) (ha : s.flight.admits (.start z date)) :
    Recorded (es ++ [.start z date]) (step docs s (.start z date)) := by
  have hlabelled : ∀ w, labelled (es ++ [.start z date]) w = labelled es w := fun w =>
    labelled_append es (.start z date) w
  have hasked : ∀ w, asked (es ++ [.start z date]) w = if z = w then date else asked es w := by
    intro w
    rw [asked_append, Event.asks]
    split <;> rfl
  have hold : ∀ {w}, w ∈ s.flight.started → z ≠ w := fun hw he => ha.2 (he ▸ hw)
  have hstarted : ∀ {w}, w ∈ (step docs s (.start z date)).flight.started →
      w = z ∨ w ∈ s.flight.started := by
    intro w hw
    rw [step_flight] at hw
    exact List.mem_cons.mp hw
  constructor
  · intro w hw
    rw [hasked]
    rcases hstarted hw with rfl | hw
    · rw [if_pos rfl]
      simp
    · rw [if_neg (hold hw)]
      exact List.mem_append_left _ (h.started w hw)
  · intro w hw t ht
    rw [step_start_reads, hasked]
    rcases hstarted hw with rfl | hw
    · rw [if_pos ⟨rfl, ht⟩, if_pos rfl]
    · rw [if_neg fun hboth => hold hw hboth.1.symm, if_neg (hold hw)]
      exact h.reads w hw t ht
  · exact fun t _ => step_start_dictionary docs s z date t
  · rw [step_start_calls]
    exact h.arguments
  · rw [step_start_calls]
    intro c hc
    obtain ⟨t, ht⟩ := h.answered c hc
    rw [hlabelled]
    exact ⟨t, List.mem_append_left _ ht⟩
  · rw [step_start_calls]
    simp only [hlabelled]
    rw [← h.sets]
    exact startTabs_sets z date types _

theorem Recorded.reply {docs : Docs} {es : List Event} {s : State} (h : Recorded es s)
    (hg : s.flight.Good) (hfinished : ∀ c ∈ s.calls, s.flight.Finished c.signName) {z : Sign}
    {t : TabsType} (date : TabsType → String) (ha : (z, t) ∈ s.flight.pending) :
    Recorded (es ++ [.reply z t date]) (step docs s (.reply z t date)) := by
  have hasked : ∀ w, asked (es ++ [.reply z t date]) w = asked es w := fun w =>
    asked_append es (.reply z t date) w
  have hlabelled : ∀ w, labelled (es ++ [.reply z t date]) w = if z = w then date else labelled es w := by
    intro w
    rw [labelled_append, Event.labels]
    split <;> rfl
  -- a sign whose document is there waits for nothing
  have hold : ∀ c ∈ s.calls, z ≠ c.signName := by
    rintro c hc rfl
    exact (hfinished c hc).2 (Flight.inFlight_iff.mpr ⟨t, ha⟩)
  have hne : ∀ {t'}, t' ∉ types → t' ≠ t := fun ht' he => ht' (he ▸ (hg z t ha).2)
  constructor
  · intro w hw
    rw [step_flight] at hw
    rw [hasked]
    exact List.mem_append_left _ (h.started w hw)
  · intro w hw t' ht'
    rw [step_flight] at hw
    rw [step_reply_reads, hasked]
    exact h.reads w hw t' ht'
  · intro t' ht'
    rw [step_reply_dictionary, Function.update_of_ne (hne ht')]
    exact h.dictionary t' ht'
  · intro c hc t' ht'
    rw [step_reply_calls] at hc
    rcases List.mem_append.mp hc with hc | hc
    · exact h.arguments c hc t' ht'
    · split at hc
      · exact absurd hc List.not_mem_nil
      · obtain rfl := List.mem_singleton.mp hc
        exact (Function.update_of_ne (hne ht') _ _).trans (h.dictionary t' ht')
  · intro c hc
    rw [step_reply_calls] at hc
    rw [hlabelled]
    rcases List.mem_append.mp hc with hc | hc
    · rw [if_neg (hold c hc)]
      obtain ⟨t', ht'⟩ := h.answered c hc
      exact ⟨t', List.mem_append_left _ ht'⟩
    · split at hc
      · exact absurd hc List.not_mem_nil
      · obtain rfl := List.mem_singleton.mp hc
        rw [if_pos rfl]
        exact ⟨t, by simp⟩
  · have hkept : s.sets = s.calls.map fun c => ("horoscopes/" ++ c.signName.name,
        documentOf c.arguments (labelled (es ++ [.reply z t date]) c.signName)) := by
      rw [h.sets]
      refine List.map_congr_left fun c hc => ?_
      rw [hlabelled, if_neg (hold c hc)]
    rw [step_reply_sets, step_reply_calls, List.map_append, ← hkept]
    split
    · rfl
    · rw [List.map_singleton, hlabelled, if_pos rfl]

theorem recorded_run (docs : Docs) (es : List Event) (hrun : arraysMap.Run anyEvent ⟨[], []⟩ es) :
    Recorded es (run docs es) := by
  induction es using List.reverseRecOn with
  | nil => exact ⟨nofun, nofun, fun _ _ => rfl, nofun, nofun, rfl⟩
  | append_singleton es e ih =>
    obtain ⟨hbefore, ⟨⟨ha, -⟩, -⟩⟩ := EventSystem.run_append.mp hrun
    have hflight := run_flight docs es
    rw [← hflight] at ha
    rw [run_append]
    have hgood : (run docs es).flight.Good := by
      rw [hflight]
      exact hbefore.inv initial_good fun u e h _ _ => Flight.Good.step h e
    rcases e with ⟨z, date⟩ | ⟨z, t, date⟩
    · exact (ih hbefore).start date ha
    · exact (ih hbefore).reply hgood (fun c hc => finished_of_mem_calls hbefore hc) date ha

theorem lookup_of_forall {α : Type} {k : String} {v : α} : ∀ {l : List (String × α)},
    (∀ p ∈ l, p.1 = k → p.2 = v) → (∃ p ∈ l, p.1 = k) → l.lookup k = some v
  | [], _, ⟨_, hp, _⟩ => absurd hp List.not_mem_nil
  | (k', v') :: l, hall, hsome => by
    by_cases hk : k = k'
    · subst hk
      rw [List.lookup_cons_self, ← hall (k, v') List.mem_cons_self rfl]
    · rw [List.lookup_cons, beq_false_of_ne hk]
      refine lookup_of_forall (fun p hp => hall p (List.mem_cons_of_mem _ hp)) ?_
      obtain ⟨p, hp, hpk⟩ := hsome
      rcases List.mem_cons.mp hp with rfl | hp
      · exact absurd hpk.symm hk
      · exact ⟨p, hp, hpk⟩

/-- Under the path of a sign stands its own document. -/
theorem lookup_call (docs : Docs) {es : List Event} (hrun : arraysMap.Run anyEvent ⟨[], []⟩ es)
    {c : Call} (hc : c ∈ (run docs es).calls) :
    (run docs es).sets.reverse.lookup ("horoscopes/" ++ c.signName.name) =
      some (documentOf c.arguments (labelled es c.signName)) := by
  rw [(recorded_run docs es hrun).sets]
  refine lookup_of_forall (fun p hp hpath => ?_) ⟨_, List.mem_reverse.mpr (List.mem_map_of_mem hc), rfl⟩
  obtain ⟨c', hc', rfl⟩ := List.mem_map.mp (List.mem_reverse.mp hp)
  have hlist := congrArg String.toList hpath
  simp only [String.toList_append] at hlist
  have hname := Sign.name_injective (String.toList_injective (List.append_cancel_left hlist))
  rw [call_injective hrun hc' hc hname]

/-! ### What the documents hold -/

/-- What the storage holds for a sign under the dates. -/
def contentsOn (docs : Docs) (z : Sign) (date : TabsType → String) (t : TabsType) : Option String :=
  if t ∈ types then getDocumentData (docs z t (storagePath z t (date t))) else none

theorem contentsOn_of_notMem {docs : Docs} {z : Sign} {date : TabsType → String} {t : TabsType}
    (ht : t ∉ types) : contentsOn docs z date t = none := if_neg ht

/-- Under the path of each sign stands what the storage has for it under some
dates, with these dates. -/
def Holds (docs : Docs) (s : State) : Prop :=
  ∀ z ∈ s.flight.started, ∃ date, s.sets.reverse.lookup ("horoscopes/" ++ z.name) =
    some (documentOf (contentsOn docs z date) date)

/-- Two dates make no difference where there is no content. -/
theorem documentOf_congr {d : TabsType → Option String} {date date' : TabsType → String}
    (h : ∀ t, d t ≠ none → date t = date' t) : documentOf d date = documentOf d date' := by
  have hpush : ∀ (type : String) (t : TabsType),
      pushEntry type (d t) (date t) = pushEntry type (d t) (date' t) := by
    intro type t
    cases hd : d t with
    | none => rfl
    | some content => rw [h t (by rw [hd]; simp)]
  simp only [documentOf, createTTYDocument, hpush]

/-- In a run that nothing disturbs a document is made of what the storage has
for its sign under the dates asked for. -/
theorem arguments_of_undisturbed {docs : Docs} {es : List Event}
    (hrun : arraysMap.Run Flight.Undisturbed ⟨[], []⟩ es) {c : Call} (hc : c ∈ (run docs es).calls) :
    c.arguments = contentsOn docs c.signName (asked es c.signName) := by
  have hapart : Apart docs (run docs es) := apart_run docs es initial (apart_initial docs) hrun
  have hrecorded := recorded_run docs es hrun.any
  funext t
  by_cases ht : t ∈ types
  · rw [contentsOn, if_pos ht, hapart.contents c hc t ht, State.contentRead,
      hrecorded.reads c.signName (hapart.started c hc) t ht, Option.getD_some]
  · rw [contentsOn_of_notMem ht, hrecorded.arguments c hc t ht]

/-- A run that nothing disturbs, on one day: under the path of a sign that has
its answers stands what the storage has for the sign under the dates. -/
theorem lookup_sets (docs : Docs) {es : List Event} {date : TabsType → String}
    (hrun : arraysMap.Run Flight.Undisturbed ⟨[], []⟩ es) (hdate : ∀ e ∈ es, e.dates = date) {z : Sign}
    (hz : (run docs es).flight.Finished z) :
    (run docs es).sets.reverse.lookup ("horoscopes/" ++ z.name) =
      some (documentOf (contentsOn docs z date) date) := by
  have hrecorded := recorded_run docs es hrun.any
  obtain ⟨c, hc, rfl⟩ := exists_call hrun.any hz
  obtain ⟨t, hreply⟩ := hrecorded.answered c hc
  have hasked : asked es c.signName = date := hdate _ (hrecorded.started c.signName hz.1)
  have hlabelled : labelled es c.signName = date := hdate _ hreply
  rw [lookup_call docs hrun.any hc, arguments_of_undisturbed hrun hc, hasked, hlabelled]

/-- A document that holds what the storage has under some dates was given it,
and was labelled with these dates. -/
theorem exists_dates {docs : Docs} {es : List Event} (hrun : arraysMap.Run anyEvent ⟨[], []⟩ es)
    (h : Holds docs (run docs es)) {c : Call} (hc : c ∈ (run docs es).calls) :
    ∃ date : TabsType → String, ∀ t ∈ types, ∀ content,
      getDocumentData (docs c.signName t (storagePath c.signName t (date t))) = some content →
        c.arguments t = some content ∧ labelled es c.signName t = date t := by
  obtain ⟨date, hdate⟩ := h c.signName (finished_of_mem_calls hrun hc).1
  have hsame := Option.some.inj ((lookup_call docs hrun hc).symm.trans hdate)
  refine ⟨date, fun t ht content hcontent => ?_⟩
  have hentry : ⟨entryType t, content, date t⟩ ∈ documentOf c.arguments (labelled es c.signName) := by
    rw [hsame]
    exact mem_documentOf.mpr ⟨t, (if_pos ht).trans hcontent, rfl, rfl⟩
  obtain ⟨t', hargument, htype, hlabel⟩ := mem_documentOf.mp hentry
  obtain rfl := entryType_injective htype
  exact ⟨hargument, hlabel.symm⟩

/-- The storage in which every prediction is its path. -/
def pathsStored : Docs := fun _ _ path => some ⟨some path⟩

/-- **What the documents hold.** When every answer has come, under the path of
each sign stands what the storage has for the sign under the dates that the
document carries, whatever the storage has, if and only if no event disturbs a
call in flight and every sign has the dates that it was asked for at its last
answer as well. -/
theorem documents_hold_iff {es : List Event} (hrun : arraysMap.Run anyEvent ⟨[], []⟩ es)
    (hend : (arraysMap.exec ⟨[], []⟩ es).pending = []) :
    (∀ docs, Holds docs (run docs es)) ↔ arraysMap.Run Flight.Undisturbed ⟨[], []⟩ es ∧
      ∀ z ∈ (arraysMap.exec ⟨[], []⟩ es).started, ∀ t ∈ types, asked es z t = labelled es z t := by
  have hfinished : ∀ docs, ∀ z ∈ (arraysMap.exec ⟨[], []⟩ es).started,
      (run docs es).flight.Finished z := by
    intro docs z hz
    rw [run_flight]
    refine ⟨hz, fun hwaits => ?_⟩
    obtain ⟨t, ht⟩ := Flight.inFlight_iff.mp hwaits
    rw [hend] at ht
    cases ht
  constructor
  · intro h
    have hundisturbed : arraysMap.Run Flight.Undisturbed ⟨[], []⟩ es := by
      refine undisturbed_of_not_mixed es initial initial_good hrun hend ?_
      rintro ⟨c, hc, t, ht, hne⟩
      obtain ⟨date, hdate⟩ := exists_dates hrun (h names) hc
      exact hne (hdate t ht _ rfl).1
    refine ⟨hundisturbed, fun z hz t ht => ?_⟩
    obtain ⟨c, hc, rfl⟩ := exists_call hrun (hfinished pathsStored z hz)
    obtain ⟨date, hdate⟩ := exists_dates hrun (h pathsStored) hc
    obtain ⟨hcontent, hlabel⟩ := hdate t ht _ rfl
    rw [arguments_of_undisturbed hundisturbed hc, contentsOn, if_pos ht] at hcontent
    have hpath : storagePath c.signName t (asked es c.signName t) = storagePath c.signName t (date t) :=
      Option.some.inj hcontent
    rw [storagePath_inj.mp hpath, hlabel]
  · rintro ⟨hundisturbed, hdates⟩ docs z hz
    rw [run_flight] at hz
    obtain ⟨c, hc, rfl⟩ := exists_call hrun (hfinished docs z hz)
    refine ⟨asked es c.signName, ?_⟩
    rw [lookup_call docs hrun hc, arguments_of_undisturbed hundisturbed hc]
    refine congrArg some (documentOf_congr fun t hsome => ?_)
    by_cases ht : t ∈ types
    · exact (hdates c.signName hz t ht).symm
    · exact absurd (contentsOn_of_notMem ht) hsome

theorem signBySign_holds : Holds names (run names signBySign) :=
  (documents_hold_iff (by decide +kernel) (by decide +kernel)).mpr
    ⟨by decide +kernel, by decide +kernel⟩ names

end Server
end Horo
