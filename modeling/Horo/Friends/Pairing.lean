/-
# What waits for a detail page waits for the person in the slot

The provider keeps one completion for the details of a person, one timer, and
the web view one completion block. In every reachable state, when the block or
the timer waits for a detail page, it is the page of the person the completion
of the provider is for, and the person is still to be completed; the current
person of the screen is that person, and nobody else is updating.

* `paired_of_reach`: `Paired` holds in every state a run reaches.
-/
import Horo.Friends.Steps

namespace Horo
namespace Friends

open Lib PersonDao

/-- The slot is for this person, who is still to be completed. -/
def Awaits (s : State) (i : ℕ) (o : PersonObject) : Prop :=
  s.provider.userInformationCompletion = some i ∧ s.persons[i]? = some o ∧
    o.person.status = .readyForRequest

/-- The detail page behind `path` is that of the person in the slot. -/
def Serves (s : State) (path : List Char) : Prop :=
  ∃ i o, Awaits s i o ∧ userDetailPath o.person.personUrl.toList = path

structure Paired (s : State) : Prop where
  completion : s.web.webViewDidLoadCompletion = some .userDetail →
    ∃ path, Serves s path ∧ s.web.workingURL = requestPath path
  timer : ∀ path t, s.provider.responseTimeoutTimer = some (.userDetail path, t) → Serves s path
  currentPerson : ∀ i, s.currentPerson = some i → ∃ o, Awaits s i o
  oneUpdating : OneUpdating s

variable {F : Sqlite.Doubles} {parsers : Parsers} {s s' : State}

theorem Awaits.of_persons {i : ℕ} {o : PersonObject} (h : Awaits s i o)
    (hpersons : ∀ (i : ℕ) (o : PersonObject), s.persons[i]? = some o →
      ∃ o' : PersonObject, s'.persons[i]? = some o' ∧ o'.person = o.person)
    (hslot : s'.provider.userInformationCompletion = s.provider.userInformationCompletion) :
    ∃ o', Awaits s' i o' ∧ o'.person = o.person := by
  obtain ⟨hi, ho, hstatus⟩ := h
  obtain ⟨o', ho', he⟩ := hpersons i o ho
  exact ⟨o', ⟨hslot.trans hi, ho', he ▸ hstatus⟩, he⟩

theorem Serves.of_persons {path : List Char} (h : Serves s path)
    (hpersons : ∀ (i : ℕ) (o : PersonObject), s.persons[i]? = some o →
      ∃ o' : PersonObject, s'.persons[i]? = some o' ∧ o'.person = o.person)
    (hslot : s'.provider.userInformationCompletion = s.provider.userInformationCompletion) :
    Serves s' path := by
  obtain ⟨i, o, hawaits, hpath⟩ := h
  obtain ⟨o', hawaits', he⟩ := hawaits.of_persons hpersons hslot
  exact ⟨i, o', hawaits', he ▸ hpath⟩

theorem Paired.of_calm (h : Paired s) (hc : Calm s s') : Paired s' where
  completion hcompletion := by
    obtain ⟨hbefore, hworking⟩ := hc.completion hcompletion
    obtain ⟨path, hserves, hpath⟩ := h.completion hbefore
    exact ⟨path, hserves.of_persons hc.persons hc.userInformationCompletion, hworking.trans hpath⟩
  timer path t ht := by
    obtain ⟨t', ht'⟩ := hc.timer path t ht
    exact (h.timer path t' ht').of_persons hc.persons hc.userInformationCompletion
  currentPerson i hi := by
    rcases hc.currentPerson with he | he
    · obtain ⟨o, hawaits⟩ := h.currentPerson i (he ▸ hi)
      obtain ⟨o', hawaits', -⟩ := hawaits.of_persons hc.persons hc.userInformationCompletion
      exact ⟨o', hawaits'⟩
    · rw [he] at hi; cases hi
  oneUpdating := hc.oneUpdating h.oneUpdating

theorem Paired.of_requested {path : List Char} (h : Paired s) (hr : Requested path s s')
    (hserves : Serves s' path) (hcurrent : ∀ i, s'.currentPerson = some i → ∃ o, Awaits s' i o) :
    Paired s' where
  completion _ := ⟨path, hserves, hr.workingURL⟩
  timer path' t ht := by
    obtain ⟨t', ht'⟩ := hr.timer
    rw [ht'] at ht
    injection ht with ht
    injection ht with hretry _
    injection hretry with hpath
    exact hpath ▸ hserves
  currentPerson := hcurrent
  oneUpdating := hr.oneUpdating h.oneUpdating

theorem Paired.of_listed (h : Paired s) (hl : Listed s s') : Paired s' where
  completion hcompletion := by
    rw [hl.completion] at hcompletion
    cases hcompletion
  timer path t ht := by
    obtain ⟨t', ht'⟩ := hl.timer
    rw [ht'] at ht
    cases ht
  currentPerson i hi := by
    obtain ⟨o, hslot, ho, hstatus⟩ := h.currentPerson i (hl.currentPerson ▸ hi)
    exact ⟨o, hl.userInformationCompletion.trans hslot, by rw [hl.persons, ho], hstatus⟩
  oneUpdating i o ho hupdating := by
    rw [hl.currentPerson]
    exact h.oneUpdating i o (hl.persons ▸ ho) hupdating

variable (F parsers) in
/-- A reply that delivers finds the person whose page was requested. -/
theorem Paired.delivered (h : Paired s) {r : Reply}
    (hcompletion : s.web.webViewDidLoadCompletion = some .userDetail) (hr : Delivers s r) :
    ∃ i o text birthday, Awaits s i o ∧
      requestPath (userDetailPath o.person.personUrl.toList) = s.web.workingURL ∧
      Delivered i o birthday r.page (answered text s) (evaluated F parsers r s) := by
  obtain ⟨path, ⟨i, o, hawaits, hpath⟩, hworking⟩ := h.completion hcompletion
  obtain ⟨text, birthday, hd⟩ := delivered_evaluated F parsers hcompletion hr hawaits.1 hawaits.2.1
  exact ⟨i, o, text, birthday, hawaits, by rw [hpath, hworking], hd⟩

theorem Paired.of_delivered (h : Paired s) {i : ℕ} {o : PersonObject} {text : String}
    {birthday : DateWrapper} {page : Option (List Char)} (hawaits : Awaits s i o)
    (hd : Delivered i o birthday page (answered text s) s') : Paired s' where
  completion hset := by
    rw [hd.web] at hset
    cases hset
  timer path t ht := by
    rw [hd.provider] at ht
    cases ht
  currentPerson j hj := by
    -- the current person is the one in the slot, and is given up
    rw [hd.currentPerson] at hj
    split at hj
    · cases hj
    · rename_i hne
      obtain ⟨o', hslot, -⟩ := h.currentPerson j hj
      rw [hawaits.1] at hslot
      exact absurd (hslot ▸ hj) hne
  oneUpdating j o' ho' hupdating := by
    by_cases hji : j = i
    · rw [hji, hd.person] at ho'
      rw [← Option.some.inj ho'] at hupdating
      cases hupdating
    · rw [hd.persons j hji] at ho'
      have hone := h.oneUpdating j o' ho' hupdating
      have hne : ¬ (answered text s).currentPerson = some i := by
        intro hi
        exact hji (Option.some.inj (hone.symm.trans hi))
      rw [hd.currentPerson, if_neg hne]
      exact hone

theorem paired_step (h : Paired s) (e : Event) (ha : admits s e) : Paired (step F parsers s e) := by
  cases effect_step F parsers e ha with
  | calm hc => exact h.of_calm hc
  | opens i o ho hstatus hs => rw [hs]; exact ⟨h.completion, h.timer, h.currentPerson, h.oneUpdating⟩
  | requests i o hstarts hr hslot hcurrent =>
    obtain ⟨o', ho', he⟩ := hr.persons i o hstarts.person
    have hawaits : Awaits (step F parsers s (.personSelected i)) i o' :=
      ⟨hslot, ho', he ▸ hstarts.status⟩
    refine h.of_requested hr ⟨i, o', hawaits, by rw [he]⟩ fun j hj => ?_
    obtain rfl : i = j := Option.some.inj (hcurrent.symm.trans hj)
    exact ⟨o', hawaits⟩
  | lists hl => exact h.of_listed hl
  | retries path t ht hr hslot hcurrent =>
    refine h.of_requested hr ((h.timer path t ht).of_persons hr.persons hslot) fun i hi => ?_
    obtain ⟨o, hawaits⟩ := h.currentPerson i (hcurrent ▸ hi)
    obtain ⟨o', hawaits', -⟩ := hawaits.of_persons hr.persons hslot
    exact ⟨o', hawaits'⟩
  | delivers r hcompletion hr =>
    obtain ⟨i, o, text, birthday, hawaits, -, hd⟩ := h.delivered F parsers hcompletion hr
    exact h.of_delivered hawaits hd

theorem paired_initial (table : Persons) (friends : List Person) : Paired (initial table friends) where
  completion h := by cases h
  timer path t ht := by cases ht
  currentPerson i hi := by cases hi
  oneUpdating i o ho hupdating := by
    obtain ⟨p, -, rfl⟩ := List.mem_map.mp (List.mem_of_getElem? ho)
    cases hupdating

theorem paired_of_reach (h : (system F parsers).Reach EventSystem.anyEvent s) : Paired s := by
  refine h.inv ?_ fun t e ht ha _ => paired_step ht e ha
  rintro _ ⟨table, friends, -, rfl⟩
  exact paired_initial table friends

end Friends
end Horo
