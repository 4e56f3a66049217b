import Mathlib.Data.Int.Notation
import Mathlib.Tactic.Common

/-!
# The isolation loop

The loop counts the tasks of the online containers every two seconds. A big change sets a trigger,
and the quotas are adjusted when the count has not changed from one round to the next.
-/

namespace Pqos

/-- How many of the tasks do not serve requests, as a negative number. -/
def tasksOffset : Int := -54

/-- The variables that a round of the loop hands to the next. -/
structure IsolationLoop where
  lastTasks : Int
  curTaskCount : Int
  adjustTrigger : Bool
deriving DecidableEq

def isolationStart : IsolationLoop := ⟨0, 0, false⟩

/-- A round, for the number that the shell command prints, if it prints a line: the state after it,
and the arguments of `get_online_cores` if the round adjusts the quotas. -/
def isolationRound (s : IsolationLoop) (line : Option Int) : IsolationLoop × Option (Int × Int) :=
  let cur := line.getD s.curTaskCount
  if cur ≠ s.lastTasks then
    if 5 < (cur - s.lastTasks).natAbs ∧ 10 < cur + tasksOffset then (⟨cur, cur, true⟩, none)
    else (⟨cur, cur, s.adjustTrigger⟩, none)
  else if s.adjustTrigger = false then (⟨cur, cur, s.adjustTrigger⟩, none)
  else (⟨cur, cur, false⟩, some (0, cur + tasksOffset))

/-- The state in which the loop begins a round. -/
def loopState (lines : Nat → Option Int) : Nat → IsolationLoop
  | 0 => isolationStart
  | n + 1 => (isolationRound (loopState lines n) (lines n)).1

/-- The call of `get_online_cores` that a round makes. -/
def loopCall (lines : Nat → Option Int) (n : Nat) : Option (Int × Int) :=
  (isolationRound (loopState lines n) (lines n)).2

end Pqos
