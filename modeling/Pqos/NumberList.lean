import Pqos.Lib.CText

/-!
# Lists of numbers on the command line

The tools take a list of numbers and ranges apart into a table of distinct values. The table's
entries are the list of what is stored, its length the index of the next. A range counts up in 64
bits, from whichever end is lower.
-/

namespace Pqos

open CText

/-- How a function ends in the middle: the tool reports an error and exits, the function returns an
error, it writes where a table has ended, or a loop does not stop. -/
inductive Halt
  | exit
  | failed
  | overrun
  | hang
deriving DecidableEq, Repr

/-- Decimal digits, or hexadecimal ones after their prefix, and nothing else. -/
def numberOf (s : List Char) : Except Halt Nat :=
  let hex : Bool := strcasecmp (s.take 2) ['0', 'x']
  let t := if hex then s.drop 2 else s
  let n := strtoull (if hex then 16 else 10) t
  if t ≠ [] ∧ n.2 = [] then .ok n.1 else .error .exit

/-- Store a value behind the others, unless `isdup`. -/
def addValue (max : Nat) (tab : List Nat) (val : Nat) : Except Halt (List Nat) :=
  if val ∈ tab then .ok tab
  else if tab.length < max then .ok (tab ++ [val])
  else .error .overrun

/-- The loop over a range from `n` on, and whether it filled the table. Each turn is at a value of
its own, so no more than `max` turns find room: more of them would be a loop that does not stop. -/
def addRange (max last : Nat) : Nat → Nat → List Nat → Except Halt (List Nat × Bool)
  | 0, _, _ => .error .hang
  | turns + 1, n, tab =>
    if last < n then .ok (tab, false)
    else do
      let tab ← addValue max tab n
      if max ≤ tab.length then .ok (tab, true)
      else addRange max last turns ((n + 1) % 2 ^ 64) tab

/-- One token: nothing, a range or a number. -/
def addToken (max : Nat) (token : List Char) (tab : List Nat) : Except Halt (List Nat × Bool) :=
  let token := token.dropWhile isspace
  if token = [] then .ok (tab, false)
  else
    match strchr '-' token with
    | some (first, second) => do
      let start ← numberOf first
      let last ← numberOf second
      addRange max (Nat.max start last) (max + 1) (Nat.min start last) tab
    | none => do
      let val ← numberOf token
      let tab ← addValue max tab val
      return (tab, max ≤ tab.length)

/-- The tokens one after another, until the table is full. -/
def addTokens (max : Nat) : List (List Char) → List Nat → Except Halt (List Nat)
  | [], tab => .ok tab
  | token :: tokens, tab => do
    let (tab, full) ← addToken max token tab
    if full then return tab else addTokens max tokens tab

/-- The table that a list of numbers makes. -/
def listToTab (s : List Char) (max : Nat) : Except Halt (List Nat) :=
  if max = 0 then .ok [] else addTokens max (strtok ',' s) []

/-! The two tools have the same code, each in a file of its own. -/

namespace Main

/-- pqos's `strtouint64`. -/
def strtouint64 : List Char → Except Halt Nat := numberOf

/-- pqos's `strlisttotab`. -/
def strlisttotab : List Char → Nat → Except Halt (List Nat) := listToTab

end Main

namespace Common

/-- rdtset's `strlisttotab`. -/
def strlisttotab : List Char → Nat → Except Halt (List Nat) := listToTab

end Common

end Pqos
