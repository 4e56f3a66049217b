import Pqos.Allocation

/-!
# Monitoring on the MSR interface

Starting a group gives every L3 cluster it touches an RMID no core of the cluster carries, and
moves the group's cores to it; stopping moves them back to RMID 0. No table of RMIDs is kept: what
is free is read from the association registers each time.
-/

namespace Pqos

open Prog

def monEventL3Occup : MonEvent := 1
def monEventLmemBw : MonEvent := 2
def monEventTmemBw : MonEvent := 4
def monEventRmemBw : MonEvent := 8
def perfEventLlcMiss : MonEvent := 0x4000
def perfEventIpc : MonEvent := 0x8000

/-- The events that need an RMID, and those the core's own counters count. -/
def monEvents : MonEvent := monEventL3Occup ||| monEventLmemBw ||| monEventTmemBw ||| monEventRmemBw
def perfEvents : MonEvent := perfEventIpc ||| perfEventLlcMiss

structure PollCtx where
  lcore : Nat
  cluster : Nat
  rmid : Nat
deriving DecidableEq, Repr

/-- A monitoring group, as the caller holds it between the calls. -/
structure MonData where
  valid : Nat
  event : MonEvent
  pollCtx : List PollCtx
  cores : List Nat
deriving DecidableEq, Repr

def groupValidMarker : Nat := 0x00DEAD00

/-- A cleared group. -/
def MonData.zero : MonData := ⟨0, 0, [], []⟩

def MonData.Active (g : MonData) : Prop := g.valid = groupValidMarker

instance (g : MonData) : Decidable g.Active := inferInstanceAs (Decidable (_ = _))

/-- The registers, and every group a caller may pass. -/
structure MonState where
  msr : Msr
  groups : Nat → MonData

def MonState.setGroup (g : Nat) (d : MonData) (s : MonState) : MonState :=
  { s with groups := Function.update s.groups g d }

/-- A register program, run beside the groups. -/
def onMsr {α : Type} (x : EStateM Err Msr α) : EStateM Err MonState α :=
  zoom MonState.msr (fun m s => { s with msr := m }) x

variable (p : Platform)

/-! ## RMIDs -/

/-- The RMID in an association register: its low ten bits. -/
def rmidOf (val : Word) : Nat := (val &&& 0x3ff#64).toNat

/-- An association register with its low half replaced by an RMID. -/
def withRmid (val : Word) (rmid : Nat) : Word :=
  (val &&& 0xffffffff00000000#64) ||| BitVec.ofNat 64 (rmid &&& 0x3ff)

def monAssocGet (lcore : Nat) : EStateM Err Msr Nat := do
  let val ← msrRead p lcore msrAssoc
  return rmidOf val

def monAssocSet (lcore rmid : Nat) : EStateM Err Msr Unit := do
  let val ← msrRead p lcore msrAssoc
  msrWrite p lcore msrAssoc (withRmid val rmid)

/-- The events among `event` that the platform monitors, and the number of RMIDs they all have. -/
def eventsFound (mon : CapMon) (event : MonEvent) : MonEvent × Nat :=
  mon.events.foldl (fun (mask, maxRmid) m =>
    if event &&& m.type = 0 then (mask, maxRmid)
    else (mask ||| m.type, if m.maxRmid < maxRmid then m.maxRmid else maxRmid)) (0, mon.maxRmid)

/-- The highest RMID below `max` that is not in `used`. -/
def findFree (used : List Nat) : Nat → Option Nat
  | 0 => none
  | rmid + 1 => if rmid ∈ used then findFree used rmid else some rmid

def rmidAlloc (cluster : Nat) (event : MonEvent) : EStateM Err Msr Nat := do
  let mon ← ofExcept (p.capGetType CapItem.mon?)
  failIf (event ≠ (eventsFound mon event).1 ∨ (eventsFound mon event).2 = 0) .error
  failIf (p.cpu.getCoresL3id cluster = []) .error
  let rmidList ← (p.cpu.getCoresL3id cluster).mapM (monAssocGet p)
  ofOption .error (findFree rmidList (eventsFound mon event).2)

/-! ## Core counters -/

def msrInstRetiredAny : Nat := 0x309
def msrCpuUnhaltedRef : Nat := 0x30B
def msrFixedCtrCtrl : Nat := 0x38D
def msrPerfGlobalCtrl : Nat := 0x38F
def msrPmc0 : Nat := 0x0C1
def msrPerfEvtSel0 : Nat := 0x186

/-- The counters to enable: fixed counters 0 and 2, and programmable counter 0. -/
def globalCtrlMask (event : MonEvent) : Word :=
  (if event &&& perfEventIpc = 0 then 0#64 else 0x5#64 <<< 32)
    ||| (if event &&& perfEventLlcMiss = 0 then 0#64 else 0x1#64)

/-- Counters found in use are taken over with no more than a warning. -/
def ia32PerfCounterCheck (core : Nat) : EStateM Err Msr Unit := do
  let _ ← msrRead p core msrPerfGlobalCtrl

def ia32FixedCounterProgram (event : MonEvent) (core : Nat) : EStateM Err Msr Unit :=
  unless event &&& perfEventIpc = 0 do
    msrWrite p core msrInstRetiredAny 0#64
    msrWrite p core msrCpuUnhaltedRef 0#64
    msrWrite p core msrFixedCtrCtrl 0x303#64

def ia32Pmc0Program (event : MonEvent) (core : Nat) : EStateM Err Msr Unit :=
  unless event &&& perfEventLlcMiss = 0 do
    msrWrite p core msrPmc0 0#64
    msrWrite p core msrPerfEvtSel0
      (0x2E#64 ||| (0x41#64 <<< 8) ||| (1#64 <<< 16) ||| (1#64 <<< 17) ||| (1#64 <<< 22))

def ia32PerfCounterProgram (event : MonEvent) (core : Nat) : EStateM Err Msr Unit := do
  msrWrite p core msrPerfGlobalCtrl 0#64
  ia32FixedCounterProgram p event core
  ia32Pmc0Program p event core
  msrWrite p core msrPerfGlobalCtrl (globalCtrlMask event)

def ia32PerfCounterStart (cores : List Nat) (event : MonEvent) : EStateM Err Msr Unit :=
  unless event &&& perfEvents = 0 do
    cores.forM (ia32PerfCounterCheck p)
    cores.forM (ia32PerfCounterProgram p event)

def ia32PerfCounterStop (cores : List Nat) (event : MonEvent) : EStateM Err Msr Unit :=
  unless event &&& perfEvents = 0 do
    tryAll .error (fun core => msrWrite p core msrPerfGlobalCtrl 0#64) cores

/-! ## Groups -/

/-- Check a core of a new group, and give its cluster an RMID unless an earlier core did. -/
def monCtx (event : MonEvent) (ctxs : List PollCtx) (lcore : Nat) :
    EStateM Err Msr (List PollCtx) := do
  failIf (p.cpu.checkCore lcore ≠ .ok ()) .param
  let rmid ← attempt (monAssocGet p lcore)
  match rmid with
  | .error _ => throw .param
  | .ok rmid =>
    failIf (rmid ≠ 0) .resource
    match p.cpu.getClusterid lcore with
    | .error _ => throw .param
    | .ok cluster =>
      if ∃ c ∈ ctxs, c.lcore = lcore ∨ c.cluster = cluster then return ctxs
      else do
        let rmid ← rmidAlloc p cluster (event &&& ~~~perfEvents)
        return ctxs ++ [⟨lcore, cluster, rmid⟩]

/-- The context of a cluster. -/
def ctxOf (ctxs : List PollCtx) (cluster : Nat) : Option PollCtx :=
  ctxs.find? fun c => c.cluster = cluster

/-- Move a core to the RMID its cluster was given. -/
def monAssocCtx (ctxs : List PollCtx) (lcore : Nat) : EStateM Err Msr Unit := do
  let cluster ← ofExcept (p.cpu.getClusterid lcore)
  let ctx ← ofOption .error (ctxOf ctxs cluster)
  monAssocSet p lcore ctx.rmid

/-- A start that fails once it has cleared the group moves all of the cores back to RMID 0. -/
def hwMonStart (cores : List Nat) (event : MonEvent) (g : Nat) : EStateM Err MonState Unit := do
  failIf (∃ i ∈ List.range 32, event.getLsbD i = true
    ∧ (p.capGetEvent (1#32 <<< i)).toOption = none) .param
  let ctxs ← onMsr (cores.foldlM (monCtx p event) [])
  modify (MonState.setGroup g MonData.zero)
  let r ← onMsr (attempt do
    ia32PerfCounterStart p cores event
    cores.forM (monAssocCtx p ctxs))
  match r with
  | .ok _ => modify (MonState.setGroup g ⟨0, event, ctxs, cores⟩)
  | .error e => do
    let _ ← onMsr (attempt (tryAll Err.error (fun core => monAssocSet p core 0) cores))
    throw e

def monCheckCtx (ctx : PollCtx) : EStateM Err Msr Unit := do
  failIf (p.cpu.checkCore ctx.lcore ≠ .ok ()) .param
  let rmid ← attempt (monAssocGet p ctx.lcore)
  -- an RMID other than the one started with is only warned about
  match rmid with
  | .error _ => throw .param
  | .ok _ => return ()

/-- Both loops run to their end whatever fails in them, and the group is cleared either way. -/
def hwMonStop (g : Nat) : EStateM Err MonState Unit := do
  let group := (← get).groups g
  failIf (group.cores = [] ∨ group.pollCtx = []) .param
  onMsr (group.pollCtx.forM (monCheckCtx p))
  let undone ← onMsr (attempt (tryAll .error (fun core => monAssocSet p core 0) group.cores))
  let stopped ← onMsr (attempt (ia32PerfCounterStop p group.cores group.event))
  modify (MonState.setGroup g MonData.zero)
  failIf (undone.isOk = false ∨ stopped.isOk = false) .resource

def pqosMonStart (cores : List Nat) (event : MonEvent) (g : Nat) : EStateM Err MonState Unit := do
  failIf (cores = [] ∨ event = 0) .param
  let group := (← get).groups g
  failIf group.Active .param
  failIf (event &&& ~~~(monEvents ||| perfEvents) ≠ 0) .param
  failIf (event &&& monEvents = 0 ∧ event &&& perfEvents ≠ 0) .param
  failIf (p.initDone = false) .init
  hwMonStart p cores event g
  modify fun s => s.setGroup g { s.groups g with valid := groupValidMarker }

def pqosMonStop (g : Nat) : EStateM Err MonState Unit := do
  let group := (← get).groups g
  failIf (¬ group.Active) .param
  failIf (p.initDone = false) .init
  hwMonStop p g

/-! ## Runs -/

inductive MonCall
  | start (cores : List Nat) (event : MonEvent) (g : Nat)
  | stop (g : Nat)

def monCall : MonCall → EStateM Err MonState Unit
  | .start cores event g => pqosMonStart p cores event g
  | .stop g => pqosMonStop p g

/-- The state after a run of calls, whether they succeed or not. -/
def monRun (calls : List MonCall) (s : MonState) : MonState :=
  calls.foldl (fun s c => final ((monCall p c).run s)) s

end Pqos
