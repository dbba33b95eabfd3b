/-
# The ladder of timeouts

`src/classes/rungtimer`: a timer for each timeout in turn, as long as the
callback wants another one.
-/
import Mathlib.Data.List.Basic

namespace Horo

/-- `currentTimer` is the interval of the timer that is going to fire. -/
structure RungTimer where
  timeouts : List ℕ
  currentTimer : Option ℕ
  deriving DecidableEq, Repr

namespace RungTimer

def performStep (t : RungTimer) : RungTimer :=
  match t.timeouts with
  | [] => { t with currentTimer := none }
  | frontTimeout :: timeouts => { timeouts, currentTimer := some frontTimeout }

/-- The constructor. -/
def start (timeouts : List ℕ) : RungTimer := performStep { timeouts, currentTimer := none }

/-- What the timer does when it has fired and the callback has returned. -/
def fired (callback : Bool) (t : RungTimer) : RungTimer :=
  if callback then performStep t else { t with currentTimer := none }

/-- A timer is going to fire. -/
def isPending (t : RungTimer) : Bool := t.currentTimer.isSome

end RungTimer

end Horo
