import Pqos.OsMonitoring

/-!
# Monitoring through either interface

The library's own part of a call is the same for both back ends: it checks the arguments and the
group's mark, hands over, and marks the group when a start succeeds. The mark is taken away where a
back end clears the group. A call comes with the answers of everything that is not a register:
memory, `/proc`, and the kernel's counters.
-/

namespace Pqos

open Prog

/-- What the library calls to monitor, in a back end with its state in `σ` and the answers it gets
in `ε`. A stop is given in two parts: what it checks, and what it undoes. -/
structure MonBackend (σ ε : Type) where
  initDone : Bool
  interface : Interface
  valid : Nat → σ → Nat
  setValid : Nat → Nat → σ → σ
  start : ε → List Nat → MonEvent → Nat → EStateM Err σ Unit
  /-- The library clears the group and stores the event and the task itself. -/
  setPid : Int → MonEvent → Nat → σ → σ
  startPid : ε → Nat → EStateM Err σ Unit
  stopChecks : Nat → EStateM Err σ Unit
  stopUndo : Nat → EStateM Err σ Unit
  poll : List Nat → EStateM Err σ Unit

namespace MonBackend

variable {σ ε : Type} (b : MonBackend σ ε)

/-- Only the events of the library, and none of the cores' own without one that needs an RMID. -/
def checkEvent (event : MonEvent) : EStateM Err σ Unit := do
  failIf (event &&& ~~~(monEvents ||| perfEvents) ≠ 0) .param
  failIf (event &&& monEvents = 0 ∧ event &&& perfEvents ≠ 0) .param

def pqosMonStart (env : ε) (cores : List Nat) (event : MonEvent) (g : Nat) :
    EStateM Err σ Unit := do
  failIf (cores = [] ∨ event = 0) .param
  let s ← get
  failIf (b.valid g s = groupValidMarker) .param
  checkEvent event
  failIf (b.initDone = false) .init
  b.start env cores event g
  modify (b.setValid g groupValidMarker)

def pqosMonStartPid (env : ε) (pid : Int) (event : MonEvent) (g : Nat) :
    EStateM Err σ Unit := do
  failIf (event = 0 ∨ pid < 0) .param
  let s ← get
  failIf (b.valid g s = groupValidMarker) .param
  failIf (b.interface ≠ .os) .error
  checkEvent event
  failIf (b.initDone = false) .init
  modify (b.setPid pid event g)
  b.startPid env g
  modify (b.setValid g groupValidMarker)

def pqosMonStop (g : Nat) : EStateM Err σ Unit := do
  let s ← get
  failIf (b.valid g s ≠ groupValidMarker) .param
  failIf (b.initDone = false) .init
  b.stopChecks g
  b.stopUndo g

def pqosMonPoll (groups : List Nat) : EStateM Err σ Unit := do
  let s ← get
  failIf (groups = [] ∨ ∃ g ∈ groups, b.valid g s ≠ groupValidMarker) .param
  failIf (b.initDone = false) .init
  b.poll groups

end MonBackend

/-! ## The MSR back end -/

def EventValues.zero : EventValues := ⟨0, 0, 0, 0, 0, 0, 0, 0, 0, 0, 0, 0, 0, none, 0, 0, 0⟩

def PollValues.zero : PollValues := ⟨.zero, false⟩

structure HwGroup where
  data : MonData
  polled : PollValues

def HwGroup.zero : HwGroup := ⟨.zero, .zero⟩

/-- The registers, the counters, and every group a caller may pass. -/
structure HwMon (σ : Type) where
  msr : Msr
  hw : σ
  groups : Nat → HwGroup

/-- The memory a start asks for: where an RMID is looked for, by how many were found before, and
for the two arrays of the group. -/
structure HwMem where
  rmidAlloc : Nat → Option Err
  cores : Bool
  pollCtx : Bool

section Hw

variable {σ : Type} (p : Platform) (hw : CounterHw σ)

def HwMon.setGroup (g : Nat) (d : HwGroup) (s : HwMon σ) : HwMon σ :=
  { s with groups := Function.update s.groups g d }

def HwMon.setData (g : Nat) (d : MonData) (s : HwMon σ) : HwMon σ :=
  s.setGroup g { s.groups g with data := d }

/-- A register program, run beside the rest. -/
def onRegs {α : Type} (x : EStateM Err Msr α) : EStateM Err (HwMon σ) α :=
  zoom HwMon.msr (fun m s => { s with msr := m }) x

/-- The search for an RMID, which may be out of memory once it has checked the events. -/
def rmidAllocMem (noMem : Option Err) (cluster : Nat) (event : MonEvent) : EStateM Err Msr Nat := do
  let mon ← ofExcept (p.capGetType CapItem.mon?)
  failIf (event ≠ (eventsFound mon event).1 ∨ (eventsFound mon event).2 = 0) .error
  match noMem with
  | some e => throw e
  | none => rmidAlloc p cluster event

/-- `monCtx` with the search for an RMID as a parameter. -/
def monCtxBy (alloc : Nat → MonEvent → EStateM Err Msr Nat) (event : MonEvent)
    (ctxs : List PollCtx) (lcore : Nat) : EStateM Err Msr (List PollCtx) := do
  failIf (p.cpu.checkCore lcore ≠ .ok ()) .param
  let rmid ← attempt (monAssocGet p lcore)
  match rmid with
  | .error _ => throw .param
  | .ok rmid =>
    failIf (rmid ≠ 0) .resource
    match p.cpu.getClusterid lcore with
    | .error _ => throw .param
    | .ok cluster =>
      if ∃ c ∈ ctxs, c.lcore = lcore ∨ c.cluster = cluster then return ctxs
      else do
        let rmid ← alloc cluster (event &&& ~~~perfEvents)
        return ctxs ++ [⟨lcore, cluster, rmid⟩]

def monCtxMem (mem : HwMem) (event : MonEvent) (ctxs : List PollCtx) (lcore : Nat) :
    EStateM Err Msr (List PollCtx) :=
  monCtxBy p (rmidAllocMem p (mem.rmidAlloc ctxs.length)) event ctxs lcore

/-- `hwMonStart`, which may be out of memory in three places. The first array is asked for just
after the group is cleared; without the second the cores are moved back like on any failure. -/
def hwMonStartMem (mem : HwMem) (cores : List Nat) (event : MonEvent) (g : Nat) :
    EStateM Err (HwMon σ) Unit := do
  failIf (∃ i ∈ List.range 32, event.getLsbD i = true
    ∧ (p.capGetEvent (1#32 <<< i)).toOption = none) .param
  let ctxs ← onRegs (cores.foldlM (monCtxMem p mem event) [])
  modify (HwMon.setGroup g .zero)
  failIf (mem.cores = false) .resource
  let r ← onRegs (attempt do
    failIf (mem.pollCtx = false) .resource
    ia32PerfCounterStart p cores event
    cores.forM (monAssocCtx p ctxs))
  match r with
  | .ok _ => modify (HwMon.setData g ⟨0, event, ctxs, cores⟩)
  | .error e => do
    let _ ← onRegs (attempt (tryAll Err.error (fun core => monAssocSet p core 0) cores))
    throw e

/-- What `hw_mon_stop` checks: the group's arrays, and that the registers of the contexts can be
read. -/
def hwMonStopChecks (g : Nat) : EStateM Err (HwMon σ) Unit := do
  let s ← get
  failIf ((s.groups g).data.cores = [] ∨ (s.groups g).data.pollCtx = []) .param
  onRegs ((s.groups g).data.pollCtx.forM (monCheckCtx p))

def hwMonStopUndo (g : Nat) : EStateM Err (HwMon σ) Unit := do
  let s ← get
  let group := (s.groups g).data
  let undone ← onRegs (attempt (tryAll .error (fun core => monAssocSet p core 0) group.cores))
  let stopped ← onRegs (attempt (ia32PerfCounterStop p group.cores group.event))
  modify (HwMon.setGroup g .zero)
  failIf (undone.isOk = false ∨ stopped.isOk = false) .resource

/-- A group that cannot be polled is only warned about. -/
def hwPollGroup (g : Nat) : EStateM Err (HwMon σ) Unit := do
  let s ← get
  let _ : Except Err Unit ← attempt
    (zoom (fun s => Polled.mk s.hw (s.groups g).polled)
      (fun t s => { s.setGroup g { s.groups g with polled := t.group } with hw := t.hw })
      (pqosCorePoll hw p (s.groups g).data))

def hwMonBackend : MonBackend (HwMon σ) HwMem where
  initDone := p.initDone
  interface := .msr
  valid g s := (s.groups g).data.valid
  setValid g v s := s.setData g { (s.groups g).data with valid := v }
  start := hwMonStartMem p
  setPid _ event g s :=
    s.setGroup g { HwGroup.zero with data := { MonData.zero with event := event } }
  startPid _ _ := throw .error
  stopChecks := hwMonStopChecks p
  stopUndo := hwMonStopUndo p
  poll groups := groups.forM (hwPollGroup p hw)

end Hw

/-! ## The OS back end -/

structure OsMonData where
  valid : Nat
  event : MonEvent
  pid : Int
  cores : List Nat
  tidMap : List Int
  fds : PerfCtr → List Nat
  polled : PollValues

def OsMonData.zero : OsMonData := ⟨0, 0, 0, [], [], fun _ => [], .zero⟩

/-- What starting and stopping events see of a group. -/
def OsMonData.osGroup (d : OsMonData) : OsGroup := ⟨d.event, d.cores, d.tidMap⟩

/-- The calls made of the kernel, its counters, and every group a caller may pass. -/
structure OsLife (σ : Type) where
  calls : List PerfCall
  hw : σ
  groups : Nat → OsMonData

/-- The answers a start gets: whether there is memory for the array of cores or tasks, and the tasks
that `/proc` lists for the task, if it has a directory there. -/
structure OsEnv where
  memory : Bool
  tasks : Option (List Int)

section Os

variable {σ : Type} (p : Platform) (k : PerfKernel) (hw : CounterHw σ) (scale : Word → Word)

def OsLife.setGroup (g : Nat) (d : OsMonData) (s : OsLife σ) : OsLife σ :=
  { s with groups := Function.update s.groups g d }

/-- A program on the counters of a group. -/
def onCounters {α : Type} (g : Nat) (x : EStateM Err OsMon α) : EStateM Err (OsLife σ) α :=
  zoom (fun s => ⟨s.calls, (s.groups g).fds, (s.groups g).polled.values⟩)
    (fun m s => { s.setGroup g { s.groups g with
      fds := m.fds
      polled := { (s.groups g).polled with values := m.values } } with calls := m.calls }) x

/-- A start that fails leaves the group without its mark, pointing at an array it has freed. -/
def osMonStart (env : OsEnv) (cores : List Nat) (event : MonEvent) (g : Nat) :
    EStateM Err (OsLife σ) Unit := do
  failIf (∃ i ∈ List.range 32, event.getLsbD i = true
    ∧ (p.capGetEvent (1#32 <<< i)).toOption = none) .param
  failIf (∃ lcore ∈ cores, p.cpu.checkCore lcore ≠ .ok ()) .param
  modify (OsLife.setGroup g { OsMonData.zero with event := event })
  failIf (env.memory = false) .resource
  modify (OsLife.setGroup g { OsMonData.zero with event := event, cores := cores })
  onCounters g (startEvents k ⟨event, cores, []⟩)

/-- All tasks of a process are monitored; a task that is not the first of them is on its own. -/
def tidMapOf (pid : Int) (tasks : List Int) : List Int :=
  if tasks.head? = some pid then tasks else [pid]

def osMonStartPid (env : OsEnv) (g : Nat) : EStateM Err (OsLife σ) Unit := do
  let s ← get
  let group := s.groups g
  let tasks ← ofOption .param env.tasks
  failIf (tasks = []) .error
  failIf (env.memory = false) .error
  let tidMap := tidMapOf group.pid tasks
  modify (OsLife.setGroup g { group with tidMap := tidMap })
  onCounters g (startEvents k ⟨group.event, group.cores, tidMap⟩)

def osMonStopChecks (g : Nat) : EStateM Err (OsLife σ) Unit := do
  let s ← get
  failIf ((s.groups g).cores = [] ∧ (s.groups g).tidMap = []) .param

/-- The group is cleared whether or not all of its events could be stopped. -/
def osMonStopUndo (g : Nat) : EStateM Err (OsLife σ) Unit := do
  let s ← get
  let r : Except Err Unit ← attempt
    (onCounters g (stopEvents (s.groups g).osGroup (s.groups g).event))
  modify (OsLife.setGroup g .zero)
  ofExcept r

def osPollGroup (g : Nat) : EStateM Err (OsLife σ) Unit := do
  let s ← get
  let _ : Except Err Unit ← attempt
    (zoom (fun s => Polled.mk s.hw (s.groups g).polled)
      (fun t s => { s.setGroup g { s.groups g with polled := t.group } with hw := t.hw })
      (pollPerfCounters hw scale (s.groups g).osGroup (s.groups g).fds))

def osMonBackend : MonBackend (OsLife σ) OsEnv where
  initDone := p.initDone
  interface := .os
  valid g s := (s.groups g).valid
  setValid g v s := s.setGroup g { s.groups g with valid := v }
  start := osMonStart p k
  setPid pid event g s := s.setGroup g { OsMonData.zero with event := event, pid := pid }
  startPid := osMonStartPid k
  stopChecks := osMonStopChecks
  stopUndo := osMonStopUndo
  poll groups := groups.forM (osPollGroup hw scale)

end Os

/-! ## Runs -/

inductive MonLibCall (ε : Type)
  | start (env : ε) (cores : List Nat) (event : MonEvent) (g : Nat)
  | startPid (env : ε) (pid : Int) (event : MonEvent) (g : Nat)
  | stop (g : Nat)
  | poll (groups : List Nat)

/-- The group that a call starts. -/
def MonLibCall.starts {ε : Type} : MonLibCall ε → Option Nat
  | .start _ _ _ g => some g
  | .startPid _ _ _ g => some g
  | .stop _ => none
  | .poll _ => none

namespace MonBackend

variable {σ ε : Type} (b : MonBackend σ ε)

def call : MonLibCall ε → EStateM Err σ Unit
  | .start env cores event g => b.pqosMonStart env cores event g
  | .startPid env pid event g => b.pqosMonStartPid env pid event g
  | .stop g => b.pqosMonStop g
  | .poll groups => b.pqosMonPoll groups

/-- The state after the first `n` of a sequence of calls, whether they succeed or not. -/
def after (calls : Nat → MonLibCall ε) (s : σ) : Nat → σ
  | 0 => s
  | n + 1 => final ((b.call (calls n)).run (after calls s n))

end MonBackend

end Pqos
