/-
# The builder of the application's documents

`src/server/ttyupdater/ttycreator.js`. `createTTYHoroscopes` starts
`requestPredictionsForZodiac` for every sign; each call reads five stored
predictions and, when the last of them has arrived, writes the sign's
document. `dictionary`, `types`, `horoType`, `dateString` and `path` are
assigned without `var`: they are properties of the global object, one for all
the calls in flight (`Globals`). The names a closure captures (`signName`,
`tabsType`, the completions) are its own.

* `createTTYHoroscopes_keeps_signs_apart_iff`: the documents carry the signs'
  own contents, whatever the contents are, exactly when no call starts and no
  other call's answer for the same tab arrives between the arrival of an answer
  and the completion of its call.
-/
import Horo.Lib.Reach
import Horo.Server.Storage

namespace Horo
namespace Server

open Lib Lib.EventSystem

/-- The list `types`. -/
def types : List TabsType := [.yesterday, .today, .tomorrow, .weekly, .monthly]

/-! ### The calls in flight

What `arrays.map` keeps of them: which signs' steps it has started, and which
steps of the inner maps have not called back. -/

/-- What can happen next: the step of a sign starts, or a document that was
asked for arrives. Both carry what `dateStringFromType` answers at that
moment. -/
inductive Event
  | start (signName : Sign) (dateStringFromType : TabsType → String)
  | reply (signName : Sign) (tabsType : TabsType) (dateStringFromType : TabsType → String)

structure Flight where
  started : List Sign
  pending : List (Sign × TabsType)

def Flight.step (f : Flight) : Event → Flight
  | .start z _ => ⟨z :: f.started, f.pending ++ types.map fun t => (z, t)⟩
  | .reply z t _ => ⟨f.started, f.pending.filter (· ≠ (z, t))⟩

/-- A sign's step starts once, an answer arrives once. -/
def Flight.admits (f : Flight) : Event → Prop
  | .start z _ => z ∈ zodiacs ∧ z ∉ f.started
  | .reply z t _ => (z, t) ∈ f.pending

instance (f : Flight) (e : Event) : Decidable (f.admits e) := by
  cases e <;> simp only [Flight.admits] <;> infer_instance

/-- The steps of `createTTYHoroscopes`, the contents left out. -/
def arraysMap : EventSystem Flight Event where
  init f := f = ⟨[], []⟩
  admits := Flight.admits
  step := Flight.step

instance (f : Flight) (e : Event) : Decidable (arraysMap.admits f e) :=
  inferInstanceAs (Decidable (f.admits e))

/-- The call for `z` has started and waits for an answer. -/
def Flight.InFlight (f : Flight) (z : Sign) : Prop := z ∈ f.pending.map (·.1)

instance (f : Flight) (z : Sign) : Decidable (f.InFlight z) := by
  unfold Flight.InFlight; infer_instance

theorem Flight.inFlight_iff {f : Flight} {z : Sign} : f.InFlight z ↔ ∃ t, (z, t) ∈ f.pending := by
  simp [Flight.InFlight]

/-- The event takes nothing from a call in flight: a call starts only while no
other has an answer yet, and an answer for a tab arrives only while the other
calls in flight still wait for theirs. -/
def Flight.Undisturbed (f : Flight) : Event → Prop
  | .start _ _ => ∀ z t, f.InFlight z → t ∈ types → (z, t) ∈ f.pending
  | .reply z' t _ => ∀ z, z ≠ z' → f.InFlight z → (z, t) ∈ f.pending

instance (f : Flight) (e : Event) : Decidable (f.Undisturbed e) := by
  cases e <;> simp only [Flight.Undisturbed] <;> infer_instance

/-! ### The program -/

/-- The variables assigned without `var`. -/
structure Globals where
  dictionary : TabsType → Option String
  types : List TabsType
  horoType : String
  dateString : String
  path : String

/-- A call of `createTTYDocument`: its sign and its arguments. -/
structure Call where
  signName : Sign
  arguments : TabsType → Option String

structure State where
  flight : Flight
  globals : Globals
  /-- The path asked for, by the sign and the tab of the call's closure. -/
  reads : Sign → TabsType → Option String
  /-- The calls of `createTTYDocument`. -/
  calls : List Call
  /-- The documents set, by path. -/
  sets : List (String × List Entry)

/-- The path of a stored prediction. -/
def storagePath (zodiacName : Sign) (tabsType : TabsType) (dateString : String) : String :=
  "storage/" ++ horoTypeByTabsType tabsType ++ "/" ++ zodiacName.name ++ "/" ++ dateString

/-- Two dates of one tab and sign have two paths. -/
theorem storagePath_inj {z : Sign} {t : TabsType} {d d' : String} :
    storagePath z t d = storagePath z t d' ↔ d = d' := by
  refine ⟨fun h => ?_, fun h => by rw [h]⟩
  have hlist := congrArg String.toList h
  simp only [storagePath, String.toList_append] at hlist
  exact String.toList_injective (List.append_cancel_left hlist)

/-- What the step of the inner map assigns. -/
def tabsStep (zodiacName : Sign) (dateStringFromType : TabsType → String) (g : Globals)
    (tabsType : TabsType) : Globals :=
  let g := { g with horoType := horoTypeByTabsType tabsType }
  let g := { g with dateString := dateStringFromType tabsType }
  { g with path := "storage/" ++ g.horoType ++ "/" ++ zodiacName.name ++ "/" ++ g.dateString }

/-- `storage.getDocumentData(path, …)` in the step of a tab. -/
def State.read (s : State) (zodiacName : Sign) (tabsType : TabsType) (path : String) : State :=
  { s with reads := fun z t => if z = zodiacName ∧ t = tabsType then some path else s.reads z t }

/-- The inner map's steps, started one after the other. -/
def startTabs (zodiacName : Sign) (dateStringFromType : TabsType → String) :
    List TabsType → State → State
  | [], s => s
  | t :: ts, s =>
    let g := tabsStep zodiacName dateStringFromType s.globals t
    startTabs zodiacName dateStringFromType ts
      (({ s with globals := g } : State).read zodiacName t g.path)

/-- `requestPredictionsForZodiac`, up to the return of the inner map. -/
def requestPredictionsForZodiac (zodiacName : Sign) (dateStringFromType : TabsType → String)
    (s : State) : State :=
  let g := { s.globals with dictionary := fun _ => none, types := types }
  startTabs zodiacName dateStringFromType g.types { s with globals := g }

/-- The final callback of the inner map: it reads the dictionary there is. -/
def createDocument (zodiacName : Sign) (dateStringFromType : TabsType → String) (s : State) :
    State :=
  let d := s.globals.dictionary
  let path := "horoscopes/" ++ zodiacName.name
  let array := createTTYDocument (d .yesterday) (d .today) (d .tomorrow) (d .weekly) (d .monthly)
    (d .year) dateStringFromType
  { s with globals := { s.globals with path := path }, calls := s.calls ++ [⟨zodiacName, d⟩],
           sets := s.sets ++ [(path, array)] }

/-- The completion of a read: `dictionary[tabsType] = content`, and the final
callback when no other step of this map is left. -/
def handleContent (zodiacName : Sign) (tabsType : TabsType) (content : Option String)
    (dateStringFromType : TabsType → String) (s : State) : State :=
  let s := { s with globals :=
    { s.globals with dictionary := Function.update s.globals.dictionary tabsType content } }
  if s.flight.InFlight zodiacName then s
  else createDocument zodiacName dateStringFromType s

/-- The storage: what the read issued for a sign and a tab finds at a path
when it is answered. -/
abbrev Docs := Sign → TabsType → String → Option Document

/-- The content that was read for a sign and a tab. -/
def State.contentRead (docs : Docs) (s : State) (z : Sign) (t : TabsType) : Option String :=
  getDocumentData (docs z t ((s.reads z t).getD ""))

def step (docs : Docs) (s : State) (e : Event) : State :=
  let s := { s with flight := s.flight.step e }
  match e with
  | .start z date => requestPredictionsForZodiac z date s
  | .reply z t date => handleContent z t (s.contentRead docs z t) date s

def initial : State :=
  { flight := ⟨[], []⟩, reads := fun _ _ => none, calls := [], sets := [],
    globals := { dictionary := fun _ => none, types := [], horoType := "", dateString := "",
                 path := "" } }

/-- The state after a list of events. -/
def run (docs : Docs) (es : List Event) : State :=
  es.foldl (step docs) initial

/-- Every document created so far was made of exactly what was read for its
sign, at the paths of its sign. -/
structure KeepsApart (docs : Docs) (s : State) : Prop where
  paths : ∀ z t path, s.reads z t = some path → ∃ dateString, path = storagePath z t dateString
  contents : ∀ c ∈ s.calls, ∀ t ∈ types, c.arguments t = s.contentRead docs c.signName t

/-! ### What a step does -/

theorem tabsStep_path (z : Sign) (date : TabsType → String) (g : Globals) (t : TabsType) :
    (tabsStep z date g t).path = storagePath z t (date t) := rfl

/-- Starting the inner steps touches neither the dictionary nor the calls, and
asks for the paths of the sign's own tabs. -/
theorem startTabs_spec (z : Sign) (date : TabsType → String) : ∀ (ts : List TabsType) (s : State),
    (startTabs z date ts s).globals.dictionary = s.globals.dictionary ∧
      (startTabs z date ts s).calls = s.calls ∧ (startTabs z date ts s).flight = s.flight ∧
      ∀ w t, (startTabs z date ts s).reads w t =
        if w = z ∧ t ∈ ts then some (storagePath z t (date t)) else s.reads w t
  | [], _ => ⟨rfl, rfl, rfl, by simp [startTabs]⟩
  | t :: ts, s => by
    obtain ⟨h1, h2, h3, h4⟩ := startTabs_spec z date ts
      (({ s with globals := tabsStep z date s.globals t } : State).read z t
        (tabsStep z date s.globals t).path)
    refine ⟨h1, h2, h3, fun w t' => ?_⟩
    rw [startTabs, h4]
    by_cases hrest : w = z ∧ t' ∈ ts
    · rw [if_pos hrest, if_pos ⟨hrest.1, List.mem_cons_of_mem t hrest.2⟩]
    · rw [if_neg hrest]
      show (if w = z ∧ t' = t then some (tabsStep z date s.globals t).path else s.reads w t') = _
      by_cases hown : w = z ∧ t' = t
      · obtain ⟨rfl, rfl⟩ := hown
        rw [if_pos ⟨rfl, rfl⟩, if_pos ⟨rfl, List.mem_cons_self⟩, tabsStep_path]
      · have hnot : ¬ (w = z ∧ t' ∈ t :: ts) := by
          rintro ⟨hw, ht⟩
          rcases List.mem_cons.mp ht with ht | ht
          · exact hown ⟨hw, ht⟩
          · exact hrest ⟨hw, ht⟩
        rw [if_neg hown, if_neg hnot]

section Steps

variable (docs : Docs) (s : State)

theorem step_flight (e : Event) : (step docs s e).flight = s.flight.step e := by
  rcases e with ⟨z, date⟩ | ⟨z, t, date⟩
  · exact (startTabs_spec z date types _).2.2.1
  · simp only [step, handleContent]
    split <;> rfl

theorem step_start_dictionary (z : Sign) (date : TabsType → String) (t : TabsType) :
    (step docs s (.start z date)).globals.dictionary t = none :=
  congrFun (startTabs_spec z date types _).1 t

theorem step_start_calls (z : Sign) (date : TabsType → String) :
    (step docs s (.start z date)).calls = s.calls :=
  (startTabs_spec z date types _).2.1

theorem step_start_reads (z w : Sign) (date : TabsType → String) (t : TabsType) :
    (step docs s (.start z date)).reads w t =
      if w = z ∧ t ∈ types then some (storagePath z t (date t)) else s.reads w t :=
  (startTabs_spec z date types _).2.2.2 w t

theorem step_reply_dictionary (z : Sign) (t : TabsType) (date : TabsType → String) :
    (step docs s (.reply z t date)).globals.dictionary =
      Function.update s.globals.dictionary t (s.contentRead docs z t) := by
  simp only [step, handleContent]
  split <;> rfl

theorem step_reply_reads (z : Sign) (t : TabsType) (date : TabsType → String) :
    (step docs s (.reply z t date)).reads = s.reads := by
  simp only [step, handleContent]
  split <;> rfl

/-- An answer creates a document when its sign waits for no other. -/
theorem step_reply_calls (z : Sign) (t : TabsType) (date : TabsType → String) :
    (step docs s (.reply z t date)).calls = s.calls ++
      if (s.flight.step (.reply z t date)).InFlight z then []
      else [⟨z, Function.update s.globals.dictionary t (s.contentRead docs z t)⟩] := by
  simp only [step, handleContent, State.contentRead]
  split <;> simp [createDocument]

/-- The reads of a started sign stay what they are. -/
theorem step_reads_of_started {e : Event} (ha : s.flight.admits e) {z : Sign}
    (hz : z ∈ s.flight.started) : (step docs s e).reads z = s.reads z := by
  rcases e with ⟨w, date⟩ | ⟨w, t, date⟩
  · have hne : z ≠ w := fun he => ha.2 (he ▸ hz)
    funext t
    rw [step_start_reads, if_neg fun h => hne h.1]
  · rw [step_reply_reads]

theorem step_contentRead {e : Event} (ha : s.flight.admits e) {z : Sign}
    (hz : z ∈ s.flight.started) (t : TabsType) :
    (step docs s e).contentRead docs z t = s.contentRead docs z t := by
  unfold State.contentRead
  rw [step_reads_of_started docs s ha hz]

end Steps

/-! ### The flight -/

/-- What every reached flight satisfies: an answer is awaited only for a
started sign and one of the five tabs. -/
def Flight.Good (f : Flight) : Prop := ∀ z t, (z, t) ∈ f.pending → z ∈ f.started ∧ t ∈ types

theorem Flight.Good.step {f : Flight} (h : f.Good) (e : Event) : (f.step e).Good := by
  cases e with
  | start z date =>
    intro w t hw
    rcases List.mem_append.mp hw with hw | hw
    · exact ⟨List.mem_cons_of_mem _ (h w t hw).1, (h w t hw).2⟩
    · obtain ⟨t', ht', he⟩ := List.mem_map.mp hw
      obtain ⟨rfl, rfl⟩ := Prod.mk.inj he
      exact ⟨List.mem_cons_self, ht'⟩
  | reply z t' date =>
    intro w t hw
    exact h w t (List.mem_of_mem_filter hw)

theorem Flight.mem_start {f : Flight} {z w : Sign} {t : TabsType} {date : TabsType → String} :
    (w, t) ∈ (f.step (.start z date)).pending ↔ (w, t) ∈ f.pending ∨ w = z ∧ t ∈ types := by
  simp only [Flight.step, List.mem_append, List.mem_map, Prod.mk.injEq]
  constructor
  · rintro (h | ⟨t', ht', rfl, rfl⟩)
    · exact .inl h
    · exact .inr ⟨rfl, ht'⟩
  · rintro (h | ⟨rfl, ht⟩)
    · exact .inl h
    · exact .inr ⟨t, ht, rfl, rfl⟩

theorem Flight.mem_reply {f : Flight} {z w : Sign} {t t' : TabsType} {date : TabsType → String} :
    (w, t') ∈ (f.step (.reply z t date)).pending ↔ (w, t') ∈ f.pending ∧ ¬ (w = z ∧ t' = t) := by
  simp only [Flight.step, List.mem_filter, decide_eq_true_eq, ne_eq, Prod.mk.injEq]

/-! ### An undisturbed run keeps the signs apart -/

/-- What an undisturbed run carries from state to state: the paths and the
documents are right, and the answers that have arrived for a call in flight
are in the dictionary. -/
structure Apart (docs : Docs) (s : State) : Prop extends KeepsApart docs s where
  good : s.flight.Good
  started : ∀ c ∈ s.calls, c.signName ∈ s.flight.started
  held : ∀ z t, s.flight.InFlight z → t ∈ types → (z, t) ∉ s.flight.pending →
    s.globals.dictionary t = s.contentRead docs z t

theorem apart_start {docs : Docs} {s : State} {z : Sign} {date : TabsType → String}
    (h : Apart docs s) (ha : s.flight.admits (.start z date))
    (hu : s.flight.Undisturbed (.start z date)) : Apart docs (step docs s (.start z date)) := by
  have hf := step_flight docs s (.start z date)
  refine ⟨⟨fun w t path hp => ?_, fun c hc t ht => ?_⟩, ?_, fun c hc => ?_, fun w t' hw ht' hn => ?_⟩
  · rw [step_start_reads] at hp
    split at hp
    · rename_i hwt
      rw [hwt.1]; exact ⟨date t, (Option.some.inj hp).symm⟩
    · exact h.paths w t path hp
  · rw [step_start_calls] at hc
    rw [step_contentRead docs s ha (h.started c hc)]
    exact h.contents c hc t ht
  · rw [hf]; exact h.good.step _
  · rw [step_start_calls] at hc
    rw [hf]; exact List.mem_cons_of_mem _ (h.started c hc)
  · -- nothing has arrived for a call in flight: not for `z`, and not for the others
    rw [hf] at hw hn
    obtain ⟨t₁, h₁⟩ := Flight.inFlight_iff.mp hw
    rw [Flight.mem_start] at hn
    rcases Flight.mem_start.mp h₁ with h₁ | ⟨rfl, -⟩
    · exact absurd (.inl (hu w t' (Flight.inFlight_iff.mpr ⟨t₁, h₁⟩) ht')) hn
    · exact absurd (.inr ⟨rfl, ht'⟩) hn

theorem apart_reply {docs : Docs} {s : State} {z : Sign} {t : TabsType} {date : TabsType → String}
    (h : Apart docs s) (ha : s.flight.admits (.reply z t date))
    (hu : s.flight.Undisturbed (.reply z t date)) : Apart docs (step docs s (.reply z t date)) := by
  have hf := step_flight docs s (.reply z t date)
  have hz : s.flight.InFlight z := Flight.inFlight_iff.mpr ⟨t, ha⟩
  have hread : ∀ w t, (step docs s (.reply z t date)).contentRead docs w = s.contentRead docs w :=
    fun w t => by unfold State.contentRead; rw [step_reply_reads]
  -- what `z` has been answered, once this answer is in
  have hown : ∀ t' ∈ types, (z, t') ∉ (s.flight.step (.reply z t date)).pending →
      Function.update s.globals.dictionary t (s.contentRead docs z t) t' =
        s.contentRead docs z t' := by
    intro t' ht' hn
    by_cases htt : t' = t
    · subst htt; simp
    · rw [Function.update_of_ne htt]
      exact h.held z t' hz ht' fun hp => hn (Flight.mem_reply.mpr ⟨hp, fun he => htt he.2⟩)
  refine ⟨⟨fun w t' path hp => ?_, fun c hc t' ht' => ?_⟩, ?_, fun c hc => ?_, fun w t' hw ht' hn => ?_⟩
  · rw [step_reply_reads] at hp; exact h.paths w t' path hp
  · rw [step_reply_calls] at hc
    rw [hread _ t]
    rcases List.mem_append.mp hc with hc | hc
    · exact h.contents c hc t' ht'
    · split at hc
      · cases hc
      · rename_i hdone
        rw [List.mem_singleton.mp hc]
        exact hown t' ht' fun hp => hdone (Flight.inFlight_iff.mpr ⟨t', hp⟩)
  · rw [hf]; exact h.good.step _
  · rw [hf]
    rw [step_reply_calls] at hc
    rcases List.mem_append.mp hc with hc | hc
    · exact h.started c hc
    · split at hc
      · cases hc
      · rw [List.mem_singleton.mp hc]; exact (h.good z t ha).1
  · rw [hf] at hw hn
    rw [step_reply_dictionary, hread _ t]
    by_cases hwz : w = z
    · subst hwz; exact hown t' ht' hn
    · obtain ⟨t₁, h₁⟩ := Flight.inFlight_iff.mp hw
      have hw' : s.flight.InFlight w := Flight.inFlight_iff.mpr ⟨t₁, (Flight.mem_reply.mp h₁).1⟩
      have hp : (w, t') ∉ s.flight.pending :=
        fun hp => hn (Flight.mem_reply.mpr ⟨hp, fun he => hwz he.1⟩)
      have htt : t' ≠ t := fun htt => hp (htt ▸ hu w hwz hw')
      rw [Function.update_of_ne htt]
      exact h.held w t' hw' ht' hp

theorem apart_run (docs : Docs) : ∀ (es : List Event) (s : State), Apart docs s →
    arraysMap.Run Flight.Undisturbed s.flight es → Apart docs (es.foldl (step docs) s)
  | [], _, h, _ => h
  | e :: es, s, h, hr => by
    have hstep : Apart docs (step docs s e) := by
      rcases e with ⟨z, date⟩ | ⟨z, t, date⟩
      · exact apart_start h hr.1.1 hr.1.2
      · exact apart_reply h hr.1.1 hr.1.2
    refine apart_run docs es _ hstep ?_
    rw [step_flight]; exact hr.2

theorem apart_initial (docs : Docs) : Apart docs initial := by
  refine ⟨⟨fun z t path hp => ?_, fun c hc => ?_⟩, fun z t h => ?_, fun c hc => ?_, fun z t hz => ?_⟩
  · cases hp
  · cases hc
  · cases h
  · cases hc
  · obtain ⟨t', h'⟩ := Flight.inFlight_iff.mp hz
    cases h'

/-! ### A disturbed call gets a wrong document

Shown on contents that tell the signs apart: every stored prediction of a
sign is the sign's name. -/

/-- The storage in which every prediction is its sign's name. -/
def names : Docs := fun z _ _ => some ⟨some z.name⟩

theorem contentRead_names (s : State) (z : Sign) (t : TabsType) :
    s.contentRead names z t = some z.name := rfl

/-- An answer that has arrived for a call in flight is no longer in the
dictionary. -/
def Lost (s : State) (z : Sign) (t : TabsType) : Prop :=
  s.flight.InFlight z ∧ t ∈ types ∧ (z, t) ∉ s.flight.pending ∧
    s.globals.dictionary t ≠ some z.name

/-- A document was created of something that was not read for its sign. -/
def Mixed (s : State) : Prop :=
  ∃ c ∈ s.calls, ∃ t ∈ types, c.arguments t ≠ some c.signName.name

theorem Mixed.step {s : State} (h : Mixed s) (e : Event) : Mixed (step names s e) := by
  obtain ⟨c, hc, ht⟩ := h
  refine ⟨c, ?_, ht⟩
  rcases e with ⟨z, date⟩ | ⟨z, t, date⟩
  · rw [step_start_calls]; exact hc
  · rw [step_reply_calls]; exact List.mem_append_left _ hc

/-- A call that starts empties the dictionary. -/
theorem lost_start {s : State} {z w : Sign} {t : TabsType} {date : TabsType → String}
    (hg : s.flight.Good) (ha : s.flight.admits (.start w date)) (hz : s.flight.InFlight z)
    (ht : t ∈ types) (hn : (z, t) ∉ s.flight.pending) : Lost (step names s (.start w date)) z t := by
  obtain ⟨t₁, h₁⟩ := Flight.inFlight_iff.mp hz
  have hwz : z ≠ w := fun he => ha.2 (he ▸ (hg z t₁ h₁).1)
  refine ⟨?_, ht, ?_, by rw [step_start_dictionary]; simp⟩
  · rw [step_flight]; exact Flight.inFlight_iff.mpr ⟨t₁, Flight.mem_start.mpr (.inl h₁)⟩
  · rw [step_flight, Flight.mem_start]
    exact fun h => h.elim hn fun h => hwz h.1

/-- An answer for another sign and the same tab takes its place. -/
theorem update_ne_name {d : TabsType → Option String} {z w : Sign} (t : TabsType) (h : w ≠ z) :
    Function.update d t (some w.name) t ≠ some z.name := by
  simp only [Function.update_self, ne_eq, Option.some.injEq]
  exact fun he => h (Sign.name_injective he)

/-- The other calls never put a lost answer back. -/
theorem Lost.step {s : State} {z : Sign} {t : TabsType} (h : Lost s z t) (hg : s.flight.Good)
    {e : Event} (ha : s.flight.admits e) : Lost (step names s e) z t ∨ Mixed (step names s e) := by
  obtain ⟨hz, ht, hn, hd⟩ := h
  obtain ⟨t₁, h₁⟩ := Flight.inFlight_iff.mp hz
  rcases e with ⟨w, date⟩ | ⟨w, t', date⟩
  · exact .inl (lost_start hg ha hz ht hn)
  · have hd' : Function.update s.globals.dictionary t' (s.contentRead names w t') t ≠
        some z.name := by
      by_cases htt : t = t'
      · subst htt
        exact update_ne_name t fun he => hn (he ▸ ha)
      · rw [Function.update_of_ne htt]; exact hd
    by_cases hz' : (s.flight.step (.reply w t' date)).InFlight z
    · left
      refine ⟨by rw [step_flight]; exact hz', ht, ?_, by rw [step_reply_dictionary]; exact hd'⟩
      rw [step_flight, Flight.mem_reply]; exact fun h => hn h.1
    · -- the last answer of `z`: the document takes the dictionary as it is
      have hwz : w = z := by
        by_contra hne
        exact hz' (Flight.inFlight_iff.mpr ⟨t₁, Flight.mem_reply.mpr ⟨h₁, fun h => hne h.1.symm⟩⟩)
      subst hwz
      right
      refine ⟨⟨w, Function.update s.globals.dictionary t' (s.contentRead names w t')⟩, ?_, t, ht, hd'⟩
      rw [step_reply_calls, if_neg hz']
      exact List.mem_append_right _ List.mem_cons_self

/-- A disturbing event loses an answer. -/
theorem lost_of_disturbed {s : State} (hg : s.flight.Good) {e : Event} (ha : s.flight.admits e)
    (hu : ¬ s.flight.Undisturbed e) : ∃ z t, Lost (step names s e) z t := by
  rcases e with ⟨w, date⟩ | ⟨w, t, date⟩
  · simp only [Flight.Undisturbed, not_forall] at hu
    obtain ⟨z, t, hz, ht, hn⟩ := hu
    exact ⟨z, t, lost_start hg ha hz ht hn⟩
  · simp only [Flight.Undisturbed, not_forall] at hu
    obtain ⟨z, hzw, hz, hn⟩ := hu
    obtain ⟨t₁, h₁⟩ := Flight.inFlight_iff.mp hz
    refine ⟨z, t, ?_, (hg w t ha).2, ?_, ?_⟩
    · rw [step_flight]
      exact Flight.inFlight_iff.mpr ⟨t₁, Flight.mem_reply.mpr ⟨h₁, fun h => hzw h.1⟩⟩
    · rw [step_flight, Flight.mem_reply]; exact fun h => hn h.1
    · rw [step_reply_dictionary, contentRead_names]
      exact update_ne_name t hzw.symm

/-- A lost answer, and a run to the end: a document is mixed. -/
theorem mixed_of_lost : ∀ (es : List Event) (s : State), s.flight.Good →
    arraysMap.Run anyEvent s.flight es → (arraysMap.exec s.flight es).pending = [] →
    (Mixed s ∨ ∃ z t, Lost s z t) → Mixed (es.foldl (step names) s)
  | [], s, _, _, hend, h => by
    rcases h with h | ⟨z, t, hz, -⟩
    · exact h
    · obtain ⟨t₁, h₁⟩ := Flight.inFlight_iff.mp hz
      rw [show s.flight.pending = [] from hend] at h₁
      cases h₁
  | e :: es, s, hg, hr, hend, h => by
    have hnext := step_flight names s e
    refine mixed_of_lost es _ (by rw [hnext]; exact hg.step e) (by rw [hnext]; exact hr.2)
      (by rw [hnext]; exact hend) ?_
    rcases h with h | ⟨z, t, h⟩
    · exact .inl (h.step e)
    · rcases h.step hg hr.1.1 with h | h
      · exact .inr ⟨z, t, h⟩
      · exact .inl h

theorem undisturbed_of_not_mixed : ∀ (es : List Event) (s : State), s.flight.Good →
    arraysMap.Run anyEvent s.flight es → (arraysMap.exec s.flight es).pending = [] →
    ¬ Mixed (es.foldl (step names) s) → arraysMap.Run Flight.Undisturbed s.flight es
  | [], _, _, _, _, _ => trivial
  | e :: es, s, hg, hr, hend, hk => by
    have hnext := step_flight names s e
    have hg' : (step names s e).flight.Good := by rw [hnext]; exact hg.step e
    have hr' : arraysMap.Run anyEvent (step names s e).flight es := by rw [hnext]; exact hr.2
    have hend' : (arraysMap.exec (step names s e).flight es).pending = [] := by rw [hnext]; exact hend
    by_cases hu : s.flight.Undisturbed e
    · have ih := undisturbed_of_not_mixed es _ hg' hr' hend' hk
      rw [hnext] at ih
      exact ⟨⟨hr.1.1, hu⟩, ih⟩
    · exact absurd (mixed_of_lost es _ hg' hr' hend' (.inr (lost_of_disturbed hg hr.1.1 hu))) hk

/-! ### The theorem -/

/-- **Which orders keep the signs apart.** In a run in which every answer
arrives, the documents carry exactly what was read for their signs, whatever
the storage holds, if and only if no event disturbs a call in flight. -/
theorem createTTYHoroscopes_keeps_signs_apart_iff (es : List Event)
    (hrun : arraysMap.Run anyEvent ⟨[], []⟩ es)
    (hend : (arraysMap.exec ⟨[], []⟩ es).pending = []) :
    (∀ docs, KeepsApart docs (run docs es)) ↔ arraysMap.Run Flight.Undisturbed ⟨[], []⟩ es := by
  constructor
  · intro h
    refine undisturbed_of_not_mixed es initial (apart_initial names).good hrun hend ?_
    rintro ⟨c, hc, t, ht, hne⟩
    exact hne ((h names).contents c hc t ht)
  · intro h docs
    exact (apart_run docs es initial (apart_initial docs) h).toKeepsApart

/-- Some dates, for runs on which they do not matter. -/
def someDay : TabsType → String := fun _ => "1.1.2018"

/-- All twelve calls in flight, the answers arriving sign by sign. -/
def signBySign : List Event :=
  zodiacs.map (.start · someDay) ++ zodiacs.flatMap fun z => types.map (.reply z · someDay)

/-- In that order no sign gets another's prediction. -/
theorem signBySign_keeps_apart : KeepsApart names (run names signBySign) :=
  (createTTYHoroscopes_keeps_signs_apart_iff signBySign (by decide +kernel) (by decide +kernel)).mpr
    (by decide +kernel) names

/-- All twelve calls in flight; `pisces` gets yesterday's prediction while
`aquarius`, which has it already, waits for its last one. -/
def crossed : List Event :=
  zodiacs.map (.start · someDay) ++
    [.reply .aquarius .yesterday someDay, .reply .aquarius .today someDay,
     .reply .aquarius .tomorrow someDay, .reply .aquarius .weekly someDay,
     .reply .pisces .yesterday someDay, .reply .aquarius .monthly someDay,
     .reply .pisces .today someDay, .reply .pisces .tomorrow someDay,
     .reply .pisces .weekly someDay, .reply .pisces .monthly someDay] ++
    (zodiacs.drop 2).flatMap fun z => types.map (.reply z · someDay)

/-- In that order the document of `aquarius` carries the prediction read for
`pisces`. -/
theorem crossed_mixes_signs :
    arraysMap.Run anyEvent ⟨[], []⟩ crossed ∧ (arraysMap.exec ⟨[], []⟩ crossed).pending = [] ∧
      ((run names crossed).calls.head?.map fun c => (c.signName, c.arguments .yesterday)) =
        some (.aquarius, some "pisces") ∧ ¬ KeepsApart names (run names crossed) := by
  refine ⟨by decide +kernel, by decide +kernel, by decide +kernel, fun h => ?_⟩
  have hmixed : ¬ ∀ c ∈ (run names crossed).calls, ∀ t ∈ types,
      c.arguments t = some c.signName.name := by decide +kernel
  exact hmixed h.contents

end Server
end Horo
