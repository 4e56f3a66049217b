import Pqos.NumberList
import Pqos.Monitoring
import Mathlib.Algebra.GroupWithZero.Nat

/-!
# What is selected on the command line

`-m` selects groups of cores and `-p` processes, each for some events. What pqos has selected is in
two tables of a fixed size, where a group or a process that is selected again gets the new events
too. rdtset only lists its processes.
-/

namespace Pqos

open CText

def pqosMaxCores : Nat := 512
def pqosMaxPids : Nat := 128
def rdtMaxPids : Nat := 128

/-! ## Groups of cores -/

/-- A group of cores, and how it is shown. -/
structure CoreGroup where
  desc : List Char
  cores : List Nat
  events : MonEvent
deriving DecidableEq, Repr

def uinttostr (val : Nat) : List Char := Nat.toDigits 10 val

/-- A group has its cores as 32-bit numbers. -/
def setCgrp (desc : List Char) (cores : List Nat) : CoreGroup :=
  { desc := desc, cores := cores.map (· % 2 ^ 32), events := 0 }

/-- The next entry of the table. -/
def putCgrp (max : Nat) (tab : List CoreGroup) (cg : CoreGroup) : Except Halt (List CoreGroup) :=
  if tab.length < max then .ok (tab ++ [cg]) else .error .overrun

/-- Each core outside the brackets is a group of its own. -/
def addNonGrp (max : Nat) (nonGrp : List Char) (tab : List CoreGroup) :
    Except Halt (List CoreGroup) :=
  if nonGrp = [] then .ok tab
  else do
    let cbuf ← Main.strlisttotab nonGrp (max - tab.length)
    if max < tab.length + cbuf.length then .error .failed
    else cbuf.foldlM (fun tab core =>
      putCgrp max tab (setCgrp (uinttostr (core % 2 ^ 32)) [core])) tab

def addGrp (max : Nat) (grp : List Char) (tab : List CoreGroup) : Except Halt (List CoreGroup) := do
  let cbuf ← Main.strlisttotab grp (max - tab.length)
  if max < tab.length + cbuf.length then .error .failed
  else putCgrp max tab (setCgrp grp cbuf)

/-- The loop over the groups. Each turn passes a bracket or is the last. -/
def strtocgrpsFrom (max : Nat) : Nat → List Char → List CoreGroup → Except Halt (List CoreGroup)
  | 0, _, _ => .error .hang
  | turns + 1, s, tab => do
    let (nonGrp, s) := strsep '[' s
    let tab ← addNonGrp max nonGrp tab
    match s with
    | none => return tab
    | some s => do
      let (grp, s) := strsep ']' s
      let tab ← addGrp max grp tab
      match s with
      | none => return tab
      | some s => strtocgrpsFrom max turns s tab

def strtocgrps (s : List Char) (max : Nat) : Except Halt (List CoreGroup) :=
  strtocgrpsFrom max (s.length + 1) s []

/-- Groups are compared by the number of pairs of equal cores. -/
def cmpCgrps (cgA cgB : CoreGroup) : Int :=
  let found := (cgA.cores.map fun core => cgB.cores.count core).sum
  if found = 0 then 0
  else if cgA.cores.length = cgB.cores.length ∧ cgB.cores.length = found then 1
  else -1

/-! ## The options of pqos -/

structure PidGroup where
  pid : Int
  events : MonEvent
deriving DecidableEq, Repr

/-- The tables with the number of their entries, and the events to show. -/
structure Selected where
  selMonitorCoreTab : List CoreGroup
  selMonitorPidTab : List PidGroup
  selEventsMax : MonEvent
deriving DecidableEq, Repr

def noneSelected : Selected :=
  { selMonitorCoreTab := [], selMonitorPidTab := [], selEventsMax := 0 }

def pqosMonEventAll : MonEvent := BitVec.allOnes 32

/-- The events that a selection starts with. All of them are not yet those to show. -/
def parseEvent (str : List Char) (selEventsMax : MonEvent) : Except Halt (MonEvent × MonEvent) :=
  if strcasecmp (str.take 4) "llc:".toList then
    .ok (monEventL3Occup, selEventsMax ||| monEventL3Occup)
  else if strcasecmp (str.take 4) "mbr:".toList then
    .ok (monEventRmemBw, selEventsMax ||| monEventRmemBw)
  else if strcasecmp (str.take 4) "mbl:".toList then
    .ok (monEventLmemBw, selEventsMax ||| monEventLmemBw)
  else if strcasecmp (str.take 4) "all:".toList ∨ strcasecmp (str.take 1) ":".toList then
    .ok (pqosMonEventAll, selEventsMax)
  else .error .exit

/-- What is behind the colon that the events end with. -/
def behindColon (str : List Char) : List Char := ((strchr ':' str).map Prod.snd).getD []

/-- The table with the events added to the entry of the same cores, if there is one. -/
def markCgrp (evt : MonEvent) (cgrp : CoreGroup) :
    List CoreGroup → Except Halt (Option (List CoreGroup))
  | [] => .ok none
  | cg :: tab =>
    if cmpCgrps cg cgrp < 0 then .error .exit
    else if cmpCgrps cg cgrp ≠ 0 then
      .ok (some ({ cg with events := cg.events ||| evt } :: tab))
    else do
      let found ← markCgrp evt cgrp tab
      return found.map (cg :: ·)

def selectCgrp (evt : MonEvent) (tab : List CoreGroup) (cgrp : CoreGroup) :
    Except Halt (List CoreGroup) := do
  match ← markCgrp evt cgrp tab with
  | some tab => return tab
  | none =>
    if tab.length < pqosMaxCores then return tab ++ [{ cgrp with events := evt }] else return tab

/-- An error that was returned is reported. -/
def Halt.reported : Halt → Halt
  | .failed => .exit
  | h => h

def parseMonitorEvent (sel : Selected) (str : List Char) : Except Halt Selected := do
  let (evt, selEventsMax) ← parseEvent str sel.selEventsMax
  let cgrpTab ← (strtocgrps (behindColon str) pqosMaxCores).mapError Halt.reported
  let tab ← cgrpTab.foldlM (selectCgrp evt) sel.selMonitorCoreTab
  return { sel with selMonitorCoreTab := tab, selEventsMax := selEventsMax }

/-- The option `-m`. -/
def selfnMonitorCores (sel : Selected) (arg : List Char) : Except Halt Selected :=
  if arg = [] then .error .exit else (strtok ';' arg).foldlM parseMonitorEvent sel

/-- The table with the events added to the entry of the process, if there is one. -/
def markPid (pid : Int) (evt : MonEvent) : List PidGroup → Option (List PidGroup)
  | [] => none
  | pg :: tab =>
    if pg.pid = pid then some ({ pg with events := pg.events ||| evt } :: tab)
    else (markPid pid evt tab).map (pg :: ·)

def addPidForMonitoring (evt : MonEvent) (tab : List PidGroup) (pid : Int) : List PidGroup :=
  match markPid pid evt tab with
  | some tab => tab
  | none => if tab.length < pqosMaxPids then tab ++ [{ pid := pid, events := evt }] else tab

/-- A number as a signed one of 32 bits. -/
def pidT (val : Nat) : Int := (BitVec.ofNat 32 val).toInt

def selStoreProcessId (sel : Selected) (str : List Char) : Except Halt Selected := do
  let (evt, selEventsMax) ← parseEvent str sel.selEventsMax
  let processes ← Main.strlisttotab (behindColon str) pqosMaxPids
  if processes = [] then .error .exit
  else if pqosMaxPids ≤ processes.length then .error .exit
  else return { sel with
    selMonitorPidTab := (processes.map pidT).foldl (addPidForMonitoring evt) sel.selMonitorPidTab
    selEventsMax := selEventsMax }

/-- The option `-p`. -/
def selfnMonitorPids (sel : Selected) (arg : List Char) : Except Halt Selected :=
  if arg = [] then .error .exit else (strtok ';' arg).foldlM selStoreProcessId sel

/-! ## The option of rdtset -/

/-- rdtset's option `-p`, with the table of the processes that were selected. -/
def parsePids (pids : List Int) (pidstr : List Char) : Except Halt (List Int) := do
  let tab ← Common.strlisttotab pidstr rdtMaxPids
  if tab = [] then .error .failed
  else if rdtMaxPids - pids.length < tab.length then .error .failed
  else return pids ++ tab.map pidT

end Pqos
