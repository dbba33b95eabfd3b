/-
# The updater

`beginUpdate` of `src/server/updater/horoscopesupdater.js`: sixty pages are
asked for, twelve for each of five tabs; a page that arrives is parsed and
written, and its element of the inner `arrays.map` is called back when the
write has arrived. Both maps call their last callback once, after every element
has called back, and Firestore takes every write.

* `unspoiled_iff`: an update does all that its pages allow exactly if every
  page that arrives is none at all, or leaves a text with a date in the parser.
-/
import Horo.Lib.Reach
import Horo.Server.PageParser
import Horo.Server.PredictionText

namespace Horo
namespace Server
namespace HoroscopesUpdater

open Lib Lib.EventSystem EcmaString
open PageParser (Node Variables parse page content)

/-! ### The program -/

def tabsTypes : List TabsType := [.yesterday, .today, .tomorrow, .weekly, .monthly]

/-- A tab and an index of a sign. -/
abbrev Request := TabsType × Fin 12

/-- What the downloader calls back with. -/
inductive Response
  /-- A null body. -/
  | failed
  /-- A body on which gumbo throws. -/
  | unparsed
  | page (root : Node)

/-- Where an element of the inner map is. -/
inductive Phase
  | requested
  | writing
  | calledBack
  /-- It is not going to call back. -/
  | dropped
  deriving DecidableEq, Repr

structure Update where
  /-- The variables of the parser. -/
  parsed : Variables
  running : Bool
  phase : Request → Phase
  /-- What was handed to `document.set`. -/
  sets : List (Request × String × Document)
  completions : ℕ

def beginUpdate (parsed : Variables) : Update := ⟨parsed, true, fun _ => .requested, [], 0⟩

/-- Every element has called back. -/
def AllCalledBack (s : Update) : Prop :=
  ∀ tab ∈ tabsTypes, ∀ index, s.phase (tab, index) = .calledBack

instance (s : Update) : Decidable (AllCalledBack s) :=
  inferInstanceAs (Decidable (∀ tab ∈ tabsTypes, ∀ index, s.phase (tab, index) = .calledBack))

/-- `tabsCallback`, of an element of the outer map. -/
def tabsCallback (s : Update) : Update :=
  if AllCalledBack s then { s with completions := s.completions + 1 } else s

def indexCallback (r : Request) (s : Update) : Update :=
  let s := { s with phase := Function.update s.phase r .calledBack }
  if ∀ index, s.phase (r.1, index) = .calledBack then tabsCallback s else s

/-- What `writeHoroscope` does with what the parser calls back with. -/
def writeOf (r : Request) (parsed : Variables) : Option (String × Document) :=
  writeHoroscope parsed.zodiacKey r.1 (trim parsed.textStorage.toList) []

/-- What throws is caught, and the element is not called back. -/
def handleResponse (r : Request) (response : Response) (s : Update) : Update :=
  match response with
  | .failed => indexCallback r s
  | .unparsed => { s with phase := Function.update s.phase r .dropped }
  | .page root =>
    let parsed := parse root s.parsed
    match writeOf r parsed with
    | none => { s with parsed := parsed, running := false }
    | some write =>
      { s with parsed := parsed, phase := Function.update s.phase r .writing,
               sets := s.sets ++ [(r, write)] }

inductive Event
  /-- The response to a request arrives. -/
  | response (r : Request)
  /-- The write for a request has arrived. -/
  | written (r : Request)
  deriving DecidableEq, Repr

def step (responses : Request → Response) (s : Update) : Event → Update
  | .response r => handleResponse r (responses r) s
  | .written r => indexCallback r s

/-- What can happen, while the process runs. -/
def admits (s : Update) (e : Event) : Prop :=
  s.running = true ∧ match e with
    | .response r => r.1 ∈ tabsTypes ∧ s.phase r = .requested
    | .written r => r.1 ∈ tabsTypes ∧ s.phase r = .writing

instance (s : Update) (e : Event) : Decidable (admits s e) := by
  cases e <;> simp only [admits] <;> infer_instance

/-- An update for an assignment of the responses, whatever pages the process
has parsed before. -/
def update (responses : Request → Response) : EventSystem Update Event where
  init s := ∃ parsed, s = beginUpdate parsed
  admits := admits
  step := step responses

instance (responses : Request → Response) (s : Update) (e : Event) :
    Decidable ((update responses).admits s e) := inferInstanceAs (Decidable (admits s e))

/-! ### What an update should do -/

/-- All responses and writes have arrived, or the process has exited. -/
def Over (s : Update) : Prop :=
  s.running = false ∨
    ∀ tab ∈ tabsTypes, ∀ index, s.phase (tab, index) ≠ .requested ∧ s.phase (tab, index) ≠ .writing

instance (s : Update) : Decidable (Over s) := inferInstanceAs (Decidable (_ ∨ _))

/-- The process runs, the completion was called once, and every page that is
parsed on its own, with a date in its text, was handed over for writing. -/
structure Unspoiled (responses : Request → Response) (s : Update) : Prop where
  running : s.running = true
  completed : s.completions = 1
  sets : ∀ r root parsed write, r.1 ∈ tabsTypes → responses r = .page root →
    (∀ before, parse root before = parsed) → writeOf r parsed = some write → (r, write) ∈ s.sets

/-- The response is no page, or it leaves a text with a date in the parser. -/
def HarmlessResponse (r : Request) (parsed : Variables) : Response → Prop
  | .failed => True
  | .unparsed => False
  | .page root => writeOf r (parse root parsed) ≠ none

instance (r : Request) (parsed : Variables) : ∀ response, Decidable (HarmlessResponse r parsed response)
  | .failed => inferInstanceAs (Decidable True)
  | .unparsed => inferInstanceAs (Decidable False)
  | .page root => inferInstanceAs (Decidable (writeOf r (parse root parsed) ≠ none))

def Harmless (responses : Request → Response) (s : Update) : Event → Prop
  | .response r => HarmlessResponse r s.parsed (responses r)
  | .written _ => True

instance (responses : Request → Response) (s : Update) : ∀ e, Decidable (Harmless responses s e)
  | .response r => inferInstanceAs (Decidable (HarmlessResponse r s.parsed (responses r)))
  | .written _ => inferInstanceAs (Decidable True)

/-! ### The callbacks -/

section Callbacks

variable (r : Request) (s : Update)

/-- The callbacks change nothing but the phase and the completions. -/
theorem indexCallback_eq : ∃ completions, indexCallback r s =
    { s with phase := Function.update s.phase r .calledBack, completions := completions } := by
  have htabs : ∀ s : Update, ∃ completions, tabsCallback s = { s with completions := completions } := by
    intro s
    unfold tabsCallback
    split
    · exact ⟨_, rfl⟩
    · exact ⟨_, rfl⟩
  unfold indexCallback
  simp only
  split
  · exact htabs _
  · exact ⟨_, rfl⟩

@[simp] theorem indexCallback_phase :
    (indexCallback r s).phase = Function.update s.phase r .calledBack := by
  obtain ⟨_, h⟩ := indexCallback_eq r s
  rw [h]

@[simp] theorem indexCallback_running : (indexCallback r s).running = s.running := by
  obtain ⟨_, h⟩ := indexCallback_eq r s
  rw [h]

@[simp] theorem indexCallback_sets : (indexCallback r s).sets = s.sets := by
  obtain ⟨_, h⟩ := indexCallback_eq r s
  rw [h]

/-- The completion is called by the last element that calls back. -/
theorem indexCallback_completions {r : Request} {s : Update} (hr : r.1 ∈ tabsTypes)
    (hphase : s.phase r ≠ .calledBack) (h : s.completions = if AllCalledBack s then 1 else 0) :
    (indexCallback r s).completions = if AllCalledBack (indexCallback r s) then 1 else 0 := by
  have hnot : ¬ AllCalledBack s := fun hall => hphase (hall r.1 hr r.2)
  rw [if_neg hnot] at h
  obtain ⟨s', hs'⟩ : ∃ s' : Update, s' = { s with phase := Function.update s.phase r .calledBack } :=
    ⟨_, rfl⟩
  have hall : AllCalledBack (indexCallback r s) ↔ AllCalledBack s' := by
    unfold AllCalledBack
    rw [indexCallback_phase, hs']
  have hcompletions : s'.completions = 0 := by rw [hs']; exact h
  have hindex : indexCallback r s =
      if ∀ index, s'.phase (r.1, index) = .calledBack then tabsCallback s' else s' := by
    rw [hs']
    rfl
  rw [if_congr hall rfl rfl, hindex]
  by_cases htab : ∀ index, s'.phase (r.1, index) = .calledBack
  · rw [if_pos htab]
    by_cases hdone : AllCalledBack s'
    · rw [tabsCallback, if_pos hdone, if_pos hdone, hcompletions]
    · rw [tabsCallback, if_neg hdone, if_neg hdone, hcompletions]
  · have hnone : ¬ AllCalledBack s' := fun h => htab (h r.1 hr)
    rw [if_neg htab, if_neg hnone, hcompletions]

end Callbacks

/-! ### What an event does -/

/-- What has been kept of an update so far: the completion was called when all
had called back, and what is parsed on its own was handed over. -/
structure Good (responses : Request → Response) (s : Update) : Prop where
  completions : s.completions = if AllCalledBack s then 1 else 0
  sets : ∀ r root parsed write, r.1 ∈ tabsTypes → responses r = .page root →
    (∀ before, parse root before = parsed) → writeOf r parsed = some write →
      s.phase r ≠ .requested → (r, write) ∈ s.sets

/-- The process runs, and every element is going to call back. -/
structure Alive (s : Update) : Prop where
  running : s.running = true
  phase : ∀ r : Request, r.1 ∈ tabsTypes → s.phase r ≠ .dropped

theorem good_beginUpdate (responses : Request → Response) (parsed : Variables) :
    Good responses (beginUpdate parsed) := by
  refine ⟨?_, fun r root parsed write _ _ _ _ h => absurd rfl h⟩
  have hnot : ¬ AllCalledBack (beginUpdate parsed) := by
    intro h
    have hphase := h .today (by decide) 0
    cases hphase
  rw [if_neg hnot]
  rfl

section Steps

variable {responses : Request → Response} {s : Update}

/-- Another phase that is not the last one does not call the completion. -/
theorem Good.of_phase {r : Request} {phase : Phase} {s' : Update} (h : Good responses s)
    (hr : r.1 ∈ tabsTypes) (hbefore : s.phase r ≠ .calledBack) (hphase : phase ≠ .calledBack)
    (hphases : s'.phase = Function.update s.phase r phase) (hcompletions : s'.completions = s.completions) :
    s'.completions = if AllCalledBack s' then 1 else 0 := by
  have hnot : ¬ AllCalledBack s := fun hall => hbefore (hall r.1 hr r.2)
  have hnot' : ¬ AllCalledBack s' := by
    intro hall
    have hcalled := hall r.1 hr r.2
    rw [hphases, Function.update_self] at hcalled
    exact hphase hcalled
  rw [hcompletions, h.completions, if_neg hnot, if_neg hnot']

/-- A call back of an element whose page is not written, or has been. -/
theorem Good.indexCallback {r : Request} (h : Good responses s) (hr : r.1 ∈ tabsTypes)
    (hbefore : s.phase r ≠ .calledBack)
    (hpage : s.phase r = .writing ∨ ∀ root, responses r ≠ .page root) :
    Good responses (indexCallback r s) := by
  refine ⟨indexCallback_completions hr hbefore h.completions, ?_⟩
  intro r' root parsed write hr' hroot hparse hwrite hphase
  rw [indexCallback_sets]
  apply h.sets r' root parsed write hr' hroot hparse hwrite
  rw [indexCallback_phase] at hphase
  by_cases hsame : r' = r
  · subst hsame
    rcases hpage with hwriting | hnone
    · rw [hwriting]
      decide
    · exact absurd hroot (hnone root)
  · rwa [Function.update_of_ne hsame] at hphase

theorem Good.step {e : Event} (h : Good responses s) (ha : admits s e) :
    Good responses (step responses s e) := by
  obtain ⟨_, ha⟩ := ha
  cases e with
  | written r =>
    obtain ⟨hr, hphase⟩ := ha
    exact h.indexCallback hr (by rw [hphase]; decide) (.inl hphase)
  | response r =>
    obtain ⟨hr, hphase⟩ := ha
    have hbefore : s.phase r ≠ .calledBack := by rw [hphase]; decide
    show Good responses (handleResponse r (responses r) s)
    unfold handleResponse
    rcases hresponse : responses r with _ | _ | root
    · exact h.indexCallback hr hbefore (.inr fun root hroot => by rw [hresponse] at hroot; cases hroot)
    · refine ⟨h.of_phase hr hbefore (by decide) rfl rfl, ?_⟩
      intro r' root parsed write hr' hroot hparse hwrite hphase'
      apply h.sets r' root parsed write hr' hroot hparse hwrite
      by_cases hsame : r' = r
      · subst hsame
        rw [hresponse] at hroot
        cases hroot
      · simpa only [Function.update_of_ne hsame] using hphase'
    · rcases hwriteOf : writeOf r (parse root s.parsed) with _ | write'
      · simp only [hwriteOf]
        exact ⟨h.completions, h.sets⟩
      · simp only [hwriteOf]
        refine ⟨h.of_phase hr hbefore (by decide) rfl rfl, ?_⟩
        intro r' root' parsed write hr' hroot hparse hwrite hphase'
        by_cases hsame : r' = r
        · subst hsame
          obtain rfl := Response.page.inj (hresponse.symm.trans hroot)
          rw [hparse, hwrite] at hwriteOf
          obtain rfl := Option.some.inj hwriteOf
          exact List.mem_append_right _ (List.mem_singleton.mpr rfl)
        · apply List.mem_append_left
          apply h.sets r' root' parsed write hr' hroot hparse hwrite
          simpa only [Function.update_of_ne hsame] using hphase'

def Event.request : Event → Request
  | .response r => r
  | .written r => r

/-- An event is about one request. -/
theorem step_phase_of_ne {e : Event} {r : Request} (h : r ≠ e.request) :
    (HoroscopesUpdater.step responses s e).phase r = s.phase r := by
  cases e with
  | written r' =>
    have hne : r ≠ r' := h
    show (HoroscopesUpdater.indexCallback r' s).phase r = s.phase r
    rw [indexCallback_phase, Function.update_of_ne hne]
  | response r' =>
    have hne : r ≠ r' := h
    show (handleResponse r' (responses r') s).phase r = s.phase r
    unfold handleResponse
    rcases responses r' with _ | _ | root
    · simp only
      rw [indexCallback_phase, Function.update_of_ne hne]
    · exact Function.update_of_ne hne _ _
    · rcases hwriteOf : writeOf r' (parse root s.parsed) with _ | write
      · simp only [hwriteOf]
      · simp only [hwriteOf, Function.update_of_ne hne]

/-- What is admitted is not about an element that was dropped. -/
theorem phase_of_admits {e : Event} (ha : admits s e) : s.phase e.request ≠ .dropped := by
  obtain ⟨_, ha⟩ := ha
  cases e with
  | response r => rw [Event.request, ha.2]; decide
  | written r => rw [Event.request, ha.2]; decide

/-- What is dropped remains so. -/
theorem alive_of_step {e : Event} (ha : admits s e)
    (h : Alive (HoroscopesUpdater.step responses s e)) : Alive s := by
  refine ⟨ha.1, fun r hr hdropped => ?_⟩
  have hne : r ≠ e.request := fun he => phase_of_admits ha (he ▸ hdropped)
  apply h.phase r hr
  rw [step_phase_of_ne hne, hdropped]

/-- Another phase that is not the dropped one. -/
theorem Alive.of_phase {r : Request} {phase : Phase} {s' : Update} (h : Alive s)
    (hrunning : s'.running = s.running) (hphases : s'.phase = Function.update s.phase r phase)
    (hphase : phase ≠ .dropped) : Alive s' := by
  refine ⟨hrunning.trans h.running, fun r' hr' => ?_⟩
  rw [hphases]
  by_cases hsame : r' = r
  · rw [hsame, Function.update_self]
    exact hphase
  · rw [Function.update_of_ne hsame]
    exact h.phase r' hr'

theorem Alive.indexCallback (r : Request) (h : Alive s) :
    Alive (HoroscopesUpdater.indexCallback r s) :=
  h.of_phase (indexCallback_running r s) (indexCallback_phase r s) (by decide)

/-- **What breaks an update**: a page that is not harmless. -/
theorem alive_step_iff {e : Event} (ha : admits s e) (h : Alive s) :
    Alive (HoroscopesUpdater.step responses s e) ↔ Harmless responses s e := by
  cases e with
  | written r => exact iff_of_true (h.indexCallback r) trivial
  | response r =>
    obtain ⟨_, hr, _⟩ := ha
    show Alive (handleResponse r (responses r) s) ↔ HarmlessResponse r s.parsed (responses r)
    unfold handleResponse
    rcases responses r with _ | _ | root
    · exact iff_of_true (h.indexCallback r) trivial
    · refine iff_of_false (fun halive => halive.phase r hr ?_) id
      exact Function.update_self ..
    · rcases hwriteOf : writeOf r (parse root s.parsed) with _ | write
      · refine iff_of_false (fun halive => ?_) fun hne => hne hwriteOf
        have hrunning := halive.running
        simp only [hwriteOf] at hrunning
        cases hrunning
      · simp only [hwriteOf]
        refine iff_of_true (h.of_phase rfl rfl (by decide)) ?_
        show writeOf r (parse root s.parsed) ≠ none
        rw [hwriteOf]
        exact Option.some_ne_none write

end Steps

section Ends

variable {responses : Request → Response} {s : Update}

theorem Good.allCalledBack (h : Good responses s) (hcompleted : s.completions = 1) :
    AllCalledBack s := by
  by_contra hnot
  have hcompletions := h.completions
  rw [if_neg hnot, hcompleted] at hcompletions
  exact absurd hcompletions Nat.one_ne_zero

/-- In an update that is over, what is going to call back has. -/
theorem Alive.allCalledBack (h : Alive s) (hover : Over s) : AllCalledBack s := by
  intro tab htab index
  rcases hover with hexit | hover
  · rw [h.running] at hexit
    cases hexit
  · obtain ⟨hrequested, hwriting⟩ := hover tab htab index
    have hdropped := h.phase (tab, index) htab
    cases hphase : s.phase (tab, index) with
    | requested => exact absurd hphase hrequested
    | writing => exact absurd hphase hwriting
    | dropped => exact absurd hphase hdropped
    | calledBack => rfl

theorem Unspoiled.alive (h : Unspoiled responses s) (hgood : Good responses s) : Alive s := by
  refine ⟨h.running, fun r hr => ?_⟩
  rw [hgood.allCalledBack h.completed r.1 hr r.2]
  decide

theorem Good.unspoiled (h : Good responses s) (halive : Alive s) (hover : Over s) :
    Unspoiled responses s := by
  have hcalled := halive.allCalledBack hover
  refine ⟨halive.running, ?_, fun r root parsed write htab hroot hparse hwrite => ?_⟩
  · rw [h.completions, if_pos hcalled]
  · apply h.sets r root parsed write htab hroot hparse hwrite
    rw [hcalled r.1 htab r.2]
    decide

end Ends

/-! ### The theorem -/

/-- **When an update is not spoiled.** An update that is over has done all that
its pages allow if and only if every response was harmless when it arrived. -/
theorem unspoiled_iff (responses : Request → Response) (parsed : Variables) {es : List Event}
    (hr : (update responses).Run anyEvent (beginUpdate parsed) es)
    (hover : Over ((update responses).exec (beginUpdate parsed) es)) :
    Unspoiled responses ((update responses).exec (beginUpdate parsed) es) ↔
      (update responses).Run (Harmless responses) (beginUpdate parsed) es := by
  have hgood : Good responses ((update responses).exec (beginUpdate parsed) es) :=
    hr.inv (good_beginUpdate responses parsed) fun _ _ hg ha _ => hg.step ha
  constructor
  · intro h
    refine @run_of_not_broken _ _ (update responses) (Good responses) (fun s => ¬ Alive s)
      (Harmless responses) (fun _ _ hg ha => hg.step ha) (fun s e _ ha hnot hnext => ?_)
      (fun _ _ _ ha hdead hnext => hdead (alive_of_step ha hnext)) es _
      (good_beginUpdate responses parsed) hr (fun hdead => hdead (h.alive hgood))
    exact hnot ((alive_step_iff ha (alive_of_step ha hnext)).mp hnext)
  · intro h
    have halive : Alive (beginUpdate parsed) := ⟨rfl, fun r _ h => by cases h⟩
    have hend : Alive ((update responses).exec (beginUpdate parsed) es) :=
      h.inv halive fun _ _ hs ha hok => (alive_step_iff ha hs).mpr hok
    exact hgood.unspoiled hend hover

/-- The requests, tab by tab. -/
def requests : List Request := tabsTypes.flatMap fun tab => (List.finRange 12).map fun i => (tab, i)

/-- A page of a sign. -/
def leoPage : Node :=
  .element "html" [] [page "leo" [content " Jan 2, 2018 - Courage. "]]

/-- One page arrives, for today; the other bodies are null. -/
def onePage (response : Response) (r : Request) : Response :=
  if r = (.today, 4) then response else .failed

example : writeOf (.today, 4) (parse leoPage PageParser.initial) =
    some ("storage/days/leo/2.1.2018", ⟨some "Jan 2, 2018 - Courage."⟩) := by decide +kernel

theorem leoPage_unspoiled : Unspoiled (onePage (.page leoPage))
    ((update (onePage (.page leoPage))).exec (beginUpdate PageParser.initial)
      (requests.map .response ++ [.written (.today, 4)])) := by
  refine (unspoiled_iff (onePage (.page leoPage)) PageParser.initial ?_ ?_).mpr ?_
  · decide +kernel
  · decide +kernel
  · decide +kernel

/-- A body that gumbo does not take: the completion is not called, although
everything has arrived. A page without a text: the process exits. -/
theorem one_page_spoils :
    (update (onePage .unparsed)).Run anyEvent (beginUpdate PageParser.initial)
        (requests.map .response) ∧
      Over ((update (onePage .unparsed)).exec (beginUpdate PageParser.initial)
        (requests.map .response)) ∧
      ¬ Unspoiled (onePage .unparsed) ((update (onePage .unparsed)).exec
        (beginUpdate PageParser.initial) (requests.map .response)) ∧
      ¬ Unspoiled (onePage (.page (page "leo" []))) ((update (onePage (.page (page "leo" [])))).exec
        (beginUpdate PageParser.initial) [.response (.today, 4)]) := by
  have hcompletions : ((update (onePage .unparsed)).exec (beginUpdate PageParser.initial)
      (requests.map .response)).completions = 0 := by decide +kernel
  have hrunning : ((update (onePage (.page (page "leo" [])))).exec (beginUpdate PageParser.initial)
      [.response (.today, 4)]).running = false := by decide +kernel
  refine ⟨by decide +kernel, by decide +kernel, fun h => ?_, fun h => ?_⟩
  · have hcompleted := h.completed
    rw [hcompletions] at hcompleted
    cases hcompleted
  · have hruns := h.running
    rw [hrunning] at hruns
    cases hruns

end HoroscopesUpdater
end Server
end Horo
