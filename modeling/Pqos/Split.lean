import Pqos.Quota
import Mathlib.Data.List.FinRange

/-!
# Splitting the machine

From the quota of the online service the tool works out what is left for the offline jobs, and
submits it: lists of cores, a mask of cache ways, and a percentage of bandwidth. What C leaves
undefined, a number that does not fit an `int` or a store past an array, is no result.
-/

namespace Pqos

def coreNums : Nat := 32

def llcWays : Nat := 2047

/-- The variables that the two functions share. -/
structure IsolationVars where
  allCores : Fin coreNums → Int
  offlineLlcWays : Int
  onlineLlcWays : Int
  offlineMbaPercent : Int

def isolationVars : IsolationVars := ⟨fun _ => 0, 1, 1, 10⟩

def initCores (s : IsolationVars) : IsolationVars := { s with allCores := fun _ => 0 }

/-! ## Numbers -/

/-- The result of arithmetic on `int`s. -/
def intResult (n : Int) : Option Int := if -2 ^ 31 ≤ n ∧ n < 2 ^ 31 then some n else none

/-- The conversion to an `int`, which cuts the fraction off. -/
def truncInt (x : ℚ) : Option Int := intResult (if x < 0 then ⌈x⌉ else ⌊x⌋)

/-- Of a number that is not negative: of any other the loop does not end. -/
def getWayCounts (llc : Nat) : Nat :=
  if llc = 0 then 0 else getWayCounts (llc >>> 1) + 1
termination_by llc
decreasing_by
  rw [Nat.shiftRight_eq_div_pow]
  exact Nat.div_lt_self (by omega) (by decide)

/-! ## The quota -/

/-- `ALL_CORES[2*i] = 1`. -/
def setOnline (allCores : Fin coreNums → Int) (i : Nat) : Option (Fin coreNums → Int) :=
  if h : 2 * i < coreNums then some (Function.update allCores ⟨2 * i, h⟩ 1) else none

def getOnlineCores (q : Quota) (s : IsolationVars) : Option IsolationVars := do
  let whole ← truncInt q.cpu
  let cores ← intResult (if (whole : ℚ) < q.cpu then whole + 1 else whole)
  let allCores ← (List.range cores.toNat).foldlM setOnline s.allCores
  let mba ← truncInt q.membw
  let offlineMbaPercent ← intResult (100 - mba)
  let ways ← truncInt (q.llc / 1024)
  let llc ← truncInt q.llc
  let onlineLlcWays ← intResult (if llc.tmod 1024 ≠ 0 then ways + 1 else ways)
  let offlineLlcWays ← intResult (getWayCounts llcWays - onlineLlcWays)
  return ⟨allCores, if offlineLlcWays ≤ 0 then 1 else offlineLlcWays, onlineLlcWays,
    offlineMbaPercent⟩

/-! ## What is submitted -/

structure IsolationSubmit where
  onlineCores : List Char
  offlineCores : List Char
  offlineLlc : Nat
  offlineMba : Int
deriving DecidableEq

/-- `"%d,"`. -/
def coreText (core : Nat) : List Char := Nat.toDigits 10 core ++ [',']

/-- The lists of the cores that are online and of the others. -/
def coreLists (allCores : Fin coreNums → Int) : List Char × List Char :=
  (List.finRange coreNums).foldl
    (fun lists i =>
      if allCores i = 1 then (lists.1 ++ coreText i, lists.2)
      else (lists.1, lists.2 ++ coreText i))
    ([], [])

/-- The mask that is left when the ways of the online service are shifted out, 1 if none is. -/
def currentOfflineLlc (s : IsolationVars) : Nat :=
  let mask := (fun mask => mask >>> 1)^[s.onlineLlcWays.toNat] llcWays
  if mask < 1 then 1 else mask

def isolationSubmit (s : IsolationVars) : IsolationSubmit × IsolationVars :=
  let mba := if s.offlineMbaPercent < 10 then 10 else s.offlineMbaPercent
  (⟨(coreLists s.allCores).1, (coreLists s.allCores).2, currentOfflineLlc s, mba⟩,
    { s with offlineMbaPercent := mba })

end Pqos
