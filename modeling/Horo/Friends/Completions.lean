/-
# The screen of friends under any order of completions

`FriendsScreenModelImpl` against whatever calls it: the completion of a request
may be called at once, late, again, or for a request that was given up. The
call of the manager is the last thing `personSelected` does and the first that
`cancelOperation` does, so a completion that is called there is the event after
the one and before the other.

Key theorems: `oneUpdating_screenStep`, `at_most_one_updating`.
-/
import Horo.Friends.Steps

namespace Horo
namespace Friends

open Lib PersonDao

inductive ScreenEvent
  | personSelected (i : ℕ)
  | cancelOperation (type : CancelTypes)
  | loadFriends (friends : List Person)
  /-- `safeCompletion` of `updateUserInformationForPerson`, for any person. -/
  | completion (i : ℕ) (birthday : DateWrapper)
  /-- The callback `personSelected` has made for a person, called by itself. -/
  | callback (i : ℕ) (success : Bool)
  deriving DecidableEq, Repr

section

variable (F : Sqlite.Doubles)

def screenStep (s : State) : ScreenEvent → State
  | .personSelected i => personSelected i s
  | .cancelOperation type => cancelOperation type s
  | .loadFriends friends => loadFriends friends s
  | .completion i birthday => birthdayUpdated F i birthday none s
  | .callback i success => personUpdated i success s

/-- The screen starts with no current person; any persons may be in memory. -/
def screen : EventSystem State ScreenEvent where
  init s := s.currentPerson = none ∧ ∀ o ∈ s.persons, o.updating = false
  admits _ _ := True
  step := screenStep F

variable {F} {s : State}

/-- The callback takes the flag from its person, and gives the person up. -/
theorem oneUpdating_personUpdated (i : ℕ) (success : Bool) (h : OneUpdating s) :
    OneUpdating (personUpdated i success s) := by
  have hpersons : (personUpdated i success s).persons = (setUpdating i false s).persons := by
    unfold personUpdated
    cases success <;> simp only [Bool.false_eq_true, if_true, if_false] <;> split <;> rfl
  have hcurrent : (personUpdated i success s).currentPerson =
      if s.currentPerson = some i then none else s.currentPerson := by
    have hset : (setUpdating i false s).currentPerson = s.currentPerson := rfl
    have hshow : (showPersonViewController i (setUpdating i false s)).currentPerson = s.currentPerson := rfl
    unfold personUpdated
    cases success
    · simp only [Bool.false_eq_true, if_false, hset]
      split <;> rfl
    · simp only [if_true, hshow]
      split <;> rfl
  intro j o ho hupdating
  rw [hpersons] at ho
  obtain ⟨o', ho', hflag⟩ := getElem?_setUpdating ho
  have hj : j ≠ i := fun hji => by
    rw [if_pos hji, hupdating] at hflag
    cases hflag
  rw [if_neg hj, hupdating] at hflag
  have hone := h j o' ho' hflag.symm
  rw [hcurrent, if_neg, hone]
  rw [hone]
  exact fun he => hj (Option.some.inj he)

theorem oneUpdating_birthdayUpdated (i : ℕ) (birthday : DateWrapper) (page : Option (List Char))
    (h : OneUpdating s) : OneUpdating (birthdayUpdated F i birthday page s) := by
  unfold birthdayUpdated
  split
  · exact h
  · rename_i o _
    -- the date and the sign of a person change, not the flag
    have hperson : OneUpdating { s with
        persons := s.persons.modify i fun o' => { o' with person := FriendsManager.withBirthday o.person birthday }
        attributions := s.attributions ++ [⟨o.person, birthday, page⟩] } := by
      intro j p hp hupdating
      simp only [List.getElem?_modify] at hp
      obtain ⟨p', hp', rfl⟩ := Option.map_eq_some_iff.mp hp
      refine h j p' hp' ?_
      rw [← hupdating]
      split <;> rfl
    exact oneUpdating_personUpdated i _ hperson

/-- **Each event keeps it that only the current person is updating.** -/
theorem oneUpdating_screenStep (h : OneUpdating s) (e : ScreenEvent) : OneUpdating (screenStep F s e) := by
  cases e with
  | personSelected i =>
    rcases personSelected_cases i s with hc | ⟨o, -, -, hs⟩ | ⟨o, -, hr, -, -⟩
    · exact hc.oneUpdating h
    · rw [screenStep, hs]
      exact h
    · exact hr.oneUpdating h
  | cancelOperation type => exact (calm_cancelOperation type s).oneUpdating h
  | loadFriends friends => exact (Calm.loadFriends friends s).oneUpdating h
  | completion i birthday => exact oneUpdating_birthdayUpdated i birthday none h
  | callback i success => exact oneUpdating_personUpdated i success h

theorem oneUpdating_of_screen_reach (h : (screen F).Reach EventSystem.anyEvent s) : OneUpdating s := by
  refine h.inv ?_ fun t e ht _ _ => oneUpdating_screenStep ht e
  rintro t ⟨-, hnone⟩ i o ho hupdating
  rw [hnone o (List.mem_of_getElem? ho)] at hupdating
  cases hupdating

/-- **At most one friend is updating**, whatever the order of the events, and
it is the current person. -/
theorem at_most_one_updating (h : (screen F).Reach EventSystem.anyEvent s) :
    (∀ (i j : ℕ) (o p : PersonObject), s.persons[i]? = some o → s.persons[j]? = some p →
      o.updating = true → p.updating = true → i = j) ∧
    ∀ (i : ℕ) (o : PersonObject), s.persons[i]? = some o → o.updating = true →
      s.currentPerson = some i := by
  have hone := oneUpdating_of_screen_reach h
  refine ⟨fun i j o p ho hp hi hj => ?_, hone⟩
  exact Option.some.inj ((hone i o ho hi).symm.trans (hone j p hp hj))

end

/-- Ann is selected and given up for Bob, and then her completion is called twice. -/
def annLate : List ScreenEvent :=
  [.personSelected 0, .cancelOperation .cancelFriendBirthdayLoad, .personSelected 1,
   .completion 0 ⟨5, 5, 1990⟩, .completion 0 ⟨0, 0, 0⟩]

theorem bob_updating_alone :
    ((screen doubles).exec annAndBob annLate).persons[1]? = some ⟨bob, true⟩ ∧
      ((screen doubles).exec annAndBob annLate).currentPerson = some 1 := by
  have hinit : (screen doubles).init annAndBob := ⟨rfl, by decide⟩
  have hrun : (screen doubles).Run EventSystem.anyEvent annAndBob annLate := by
    simp [annLate, EventSystem.Run, screen, EventSystem.anyEvent]
  have hbob : ((screen doubles).exec annAndBob annLate).persons[1]? = some ⟨bob, true⟩ := by
    decide +kernel
  exact ⟨hbob, (at_most_one_updating ⟨_, hinit, EventSystem.ReachFrom.exec _ _ hrun⟩).2 1 _ hbob rfl⟩

end Friends
end Horo
