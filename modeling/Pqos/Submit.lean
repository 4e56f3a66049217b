import Pqos.AllocApply
import Pqos.Split

/-!
# Submitting a split

The split of the machine comes into force by four runs of pqos: two associate the cores with class 1
for the online service and class 2 for the offline jobs, and two define what class 2 has of the
cache and of the bandwidth. What they end with is not looked at. Every adjustment starts from no
cores online and submits the split of its own quota.
-/

namespace Pqos

open CText Prog

/-- The arguments of a run of pqos. -/
structure PqosArgs where
  classArgs : List (List Char)
  assocArgs : List (List Char)

/-- `"%d"`. -/
def percentText : Int → List Char
  | .ofNat n => Nat.toDigits 10 n
  | .negSucc n => '-' :: Nat.toDigits 10 (n + 1)

/-- The commands in order, with their arguments as the shell hands them over. -/
def submitCommands (u : IsolationSubmit) : List PqosArgs :=
  [⟨[], ["llc:1=".toList ++ u.onlineCores]⟩, ⟨[], ["llc:2=".toList ++ u.offlineCores]⟩,
    ⟨["llc:2=".toList ++ Nat.toDigits 10 u.offlineLlc], []⟩,
    ⟨["mba:2=".toList ++ percentText u.offlineMba], []⟩]

/-- The variables of the two functions, the state of the library, and what the commands of the last
adjustment ended with. -/
structure Isolation (σ : Type) where
  vars : IsolationVars
  lib : σ
  ended : List (Except Halt Int)

section Submit

variable {σ : Type} (p : Platform) (b : PidBackend σ)

/-- Every run is a process of its own. -/
def runCommands : List PqosArgs → σ → List (Except Halt Int) × σ
  | [], s => ([], s)
  | args :: commands, s =>
    let r := (pqosAlloc p b args.classArgs args.assocArgs).run ⟨s, 0⟩
    let (ended, t) := runCommands commands (final r).lib
    (outcome r :: ended, t)

/-- One adjustment, for a quota. -/
def isolationAdjust (st : Isolation σ) (q : Quota) : Option (Isolation σ) := do
  let vars ← getOnlineCores q (initCores st.vars)
  let (u, vars) := isolationSubmit vars
  let (ended, lib) := runCommands p b (submitCommands u) st.lib
  return { vars := vars, lib := lib, ended := ended }

end Submit

end Pqos
