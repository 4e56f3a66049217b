import Pqos.Resctrl
import Pqos.Api

/-!
# Allocation on the OS interface

The setters go through the schemata file of each class they change: they read it, replace the entry
of one socket or cluster, and write all of it back. Sockets and clusters are named by their position
in the topology's lists. Cores and tasks move between classes through the `cpus` and `tasks` files.
-/

namespace Pqos

open Prog

variable {κ : Type} (p : Platform) (fs : Resctrl κ)

/-! ## Class definitions -/

/-- The schemata of a class as its file has them. -/
def schemataGet (classId : Nat) : EStateM Err κ Schemata := do
  let schmt ← ofExcept (schemataInit p classId)
  schemataReadFile fs classId schmt

/-- Read the schemata of a class, change them by `f` and write them back. -/
def schemataUpdate (classId : Nat) (f : Schemata → Except Err Schemata) :
    EStateM Err κ Schemata := do
  let schmt ← schemataGet p fs classId
  let schmt ← ofExcept (f schmt)
  schemataWriteFile fs classId schmt
  return schmt

/-- Replace the entry at a position. -/
def setAt {α : Type} (resId : Nat) (a : α) (l : List α) : Except Err (List α) :=
  setEntry (fun _ => true) (fun _ => a) resId l

/-- With CDP on, a plain mask stands for both masks. -/
def L3ca.asPair (cdpOn : Bool) (ca : L3ca) : L3ca :=
  if cdpOn ∧ ca.cdp = false then ⟨ca.classId, .s ca.u.dataMask ca.u.codeMask⟩ else ca

def osL3caWrite (cdpOn : Bool) (socket : Nat) (ca : L3ca) : EStateM Err κ Unit := do
  failIf (ca.cdp = true ∧ cdpOn = false) .error
  let _ ← schemataUpdate p fs ca.classId fun schmt =>
    (setAt socket (ca.asPair cdpOn) schmt.l3ca).map fun l => { schmt with l3ca := l }
  return

def osL3caSet (socket : Nat) (ca : List L3ca) : EStateM Err κ Unit := do
  failIf (p.l3caGetCosNum.toOption = none) .resource
  let numGrps ← ofExcept p.getGrpsNum
  failIf (numGrps < ca.length) .error
  failIf (p.cpu.getSockets.length ≤ socket) .param
  let cdpOn ← ofExcept p.l3caCdpEnabled
  ca.forM (osL3caWrite p fs cdpOn socket)

/-- The entry of `resId` in the schemata of a class. -/
def schemataEntry {α : Type} (entries : Schemata → List α) (resId classId : Nat) :
    EStateM Err κ α := do
  let schmt ← schemataGet p fs classId
  ofOption .error (entries schmt)[resId]?

def osL3caGet (socket maxNumCa : Nat) : EStateM Err κ (List L3ca) := do
  failIf (p.l3caGetCosNum.toOption = none) .resource
  let count ← ofExcept p.getGrpsNum
  failIf (maxNumCa < count) .error
  failIf (p.cpu.getSockets.length ≤ socket) .param
  (List.range count).mapM (schemataEntry p fs Schemata.l3ca socket)

def osL2caWrite (l2id : Nat) (ca : L2ca) : EStateM Err κ Unit := do
  let _ ← schemataUpdate p fs ca.classId fun schmt =>
    (setAt l2id ca schmt.l2ca).map fun l => { schmt with l2ca := l }
  return

def osL2caSet (l2id : Nat) (ca : List L2ca) : EStateM Err κ Unit := do
  let l2caNum ← ofOption .resource p.l2caGetCosNum.toOption
  let numGrps ← ofExcept p.getGrpsNum
  failIf (numGrps < ca.length) .param
  failIf (∃ c ∈ ca, l2caNum ≤ c.classId) .param
  failIf (p.cpu.getL2ids.length ≤ l2id) .param
  ca.forM (osL2caWrite p fs l2id)

def osL2caGet (l2id maxNumCa : Nat) : EStateM Err κ (List L2ca) := do
  failIf (p.l2caGetCosNum.toOption = none) .resource
  let count ← ofExcept p.getGrpsNum
  failIf (maxNumCa < count) .param
  failIf (p.cpu.getL2ids.length ≤ l2id) .param
  (List.range count).mapM (schemataEntry p fs Schemata.l2ca l2id)

/-- The rounded rate, raised to the step where it is none. -/
def osMbaRate (step rate : Nat) : Nat := if mbaRound step rate = 0 then step else mbaRound step rate

def osMbaWrite (step socket : Nat) (requested : Mba) : EStateM Err κ Schemata :=
  schemataUpdate p fs requested.classId fun schmt =>
    (setAt socket ⟨requested.classId, osMbaRate step requested.mbRate⟩ schmt.mba).map fun l =>
      { schmt with mba := l }

/-- Write an entry and, when the caller wants to see what the kernel made of it, read it back. -/
def osMbaWriteActual (step socket : Nat) (requested : Mba) : EStateM Err κ Mba := do
  let schmt ← osMbaWrite p fs step socket requested
  let schmt ← schemataReadFile fs requested.classId schmt
  ofOption .error schmt.mba[socket]?

def osMbaSet (socket : Nat) (requested : List Mba) (wantActual : Bool) :
    EStateM Err κ (Option (List Mba)) := do
  let c ← ofOption .resource (p.capGetType CapItem.mba?).toOption
  let numGrps ← ofExcept p.getGrpsNum
  failIf (numGrps < requested.length) .param
  failIf (∃ r ∈ requested, numGrps ≤ r.classId) .param
  failIf (p.cpu.getSockets.length ≤ socket) .error
  if wantActual then some <$> requested.mapM (osMbaWriteActual p fs c.throttleStep socket)
  else do
    requested.forM fun r => do
      let _ ← osMbaWrite p fs c.throttleStep socket r
    return none

def osMbaGet (socket maxNumCos : Nat) : EStateM Err κ (List Mba) := do
  failIf ((p.capGetType CapItem.mba?).toOption = none) .resource
  let count ← ofExcept p.getGrpsNum
  failIf (maxNumCos < count) .error
  failIf (p.cpu.getSockets.length ≤ socket) .error
  (List.range count).mapM (schemataEntry p fs Schemata.mba socket)

/-! ## Cores -/

def osAllocAssocSet (lcore classId : Nat) : EStateM Err κ Unit := do
  failIf (p.cpu.getCoreInfo lcore = none) .param
  let numL3 ← ofExcept (cosNumOrZero p.l3caGetCosNum)
  let numL2 ← ofExcept (cosNumOrZero p.l2caGetCosNum)
  failIf (numL3 ≤ classId ∧ numL2 ≤ classId) .param
  let mask ← cpumaskRead fs classId
  cpumaskWrite fs classId (mask.set lcore)

/-- The first of the classes whose mask has the core. -/
def osFindClass (lcore : Nat) : List Nat → EStateM Err κ Nat
  | [] => throw .error
  | i :: classes => do
    let mask ← cpumaskRead fs i
    if mask.get lcore then return i else osFindClass lcore classes

def osAllocAssocGet (lcore : Nat) : EStateM Err κ Nat := do
  failIf (p.cpu.getCoreInfo lcore = none) .param
  let grps ← ofExcept p.getGrpsNum
  osFindClass fs lcore (List.range grps)

/-- Whether a class has any core or task. -/
def osClassUsed (classId : Nat) : EStateM Err κ Bool := do
  let mask ← cpumaskRead fs classId
  if mask.any then return true else taskFileCheck fs classId

/-- The classes in use from `hi` down to 1. -/
def osUsedClasses : Nat → EStateM Err κ (List Nat)
  | 0 => return []
  | i + 1 => do
    let used ← osClassUsed fs (i + 1)
    let classes ← osUsedClasses i
    return if used then (i + 1) :: classes else classes

def osGetUnusedCos (hi : Nat) : EStateM Err κ Nat := do
  let used ← osUsedClasses fs hi
  ofOption .resource (findUnused used hi)

/-- The highest class in no use, whatever the technology it is wanted for. -/
def osUnusedClass : EStateM Err κ Nat := do
  let numGrps ← ofExcept p.getGrpsNum
  failIf (numGrps = 0) .error
  osGetUnusedCos fs (numGrps - 1)

def osAllocAssign (_technology : Nat) (coreArray : List Nat) : EStateM Err κ Nat := do
  let classId ← osUnusedClass p fs
  coreArray.forM fun core => osAllocAssocSet p fs core classId
  return classId

/-- A core id is refused when it is not below the number of cores. -/
def osAllocRelease (coreArray : List Nat) : EStateM Err κ Unit := do
  let mask ← cpumaskRead fs 0
  failIf (∃ core ∈ coreArray, p.cpu.cores.length ≤ core) .error
  cpumaskWrite fs 0 (coreArray.foldl CpuMask.set mask)

/-- The step of a reset that takes the cores back to class 0: it names them by their position in
the topology. -/
def osAllocResetAssoc : EStateM Err κ Unit := do
  let mask ← cpumaskRead fs 0
  cpumaskWrite fs 0 ((List.range p.cpu.cores.length).foldl CpuMask.set mask)

/-! ## Tasks -/

def osAllocAssignPid (_technology : Nat) (taskArray : List Nat) : EStateM Err κ Nat := do
  let classId ← osUnusedClass p fs
  taskArray.forM fun task => taskWrite fs classId task
  return classId

/-- A task that is gone is passed over. -/
def osReleaseTask (task : Nat) : EStateM Err κ Unit := do
  let r : Except Err Unit ← attempt (taskWrite fs 0 task)
  failIf (r = .error .error) .error

def osAllocReleasePid (taskArray : List Nat) : EStateM Err κ Unit :=
  taskArray.forM (osReleaseTask fs)

/-! ## The back end -/

def osBackend : Backend κ where
  initDone := p.initDone
  interface := .os
  l3caSet := osL3caSet p fs
  l3caGet := osL3caGet p fs
  l2caSet := osL2caSet p fs
  l2caGet := osL2caGet p fs
  mbaSet := osMbaSet p fs
  mbaGet := osMbaGet p fs
  allocAssocSet := osAllocAssocSet p fs
  allocAssocGet := osAllocAssocGet p fs
  allocAssign := osAllocAssign p fs
  allocRelease := osAllocRelease p fs
  allocAssignPid := osAllocAssignPid p fs
  allocReleasePid := osAllocReleasePid fs

end Pqos
