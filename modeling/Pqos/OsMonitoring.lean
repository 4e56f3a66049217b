import Pqos.Poll

/-!
# Monitoring on the OS interface

The kernel counts an event of a core or a task behind a descriptor. A group holds an array of
descriptors for each of six counters; some events need the counters of two, and remote bandwidth
shares those of local and total bandwidth.
-/

namespace Pqos

open Prog

def perfEventInstructions : MonEvent := 0x1000
def perfEventCycles : MonEvent := 0x2000

/-- The events that the kernel has counters for, each with its array in a group. -/
inductive PerfCtr
  | llc | mbl | mbt | inst | cyc | llcMisses
deriving DecidableEq

/-- What a counter counts on. -/
inductive PerfTarget
  | core (cpu : Nat)
  | task (tid : Int)
deriving DecidableEq

inductive PerfCall
  | opened (ctr : PerfCtr) (target : PerfTarget) (fd : Nat)
  | refused (ctr : PerfCtr) (target : PerfTarget)
  | closed (fd : Nat)
deriving DecidableEq

def PerfCall.isRequest : PerfCall → Bool
  | .opened _ _ _ => true
  | .refused _ _ => true
  | .closed _ => false

def requests (calls : List PerfCall) : Nat := calls.countP PerfCall.isRequest

/-- The events that the kernel supports, and its answers to the requests for a counter in the order
they are made: a descriptor or a refusal. -/
structure PerfKernel where
  supported : PerfCtr → Bool
  grant : Nat → Option Nat

structure OsGroup where
  event : MonEvent
  cores : List Nat
  tidMap : List Int
deriving DecidableEq

/-- Cores if there are any, else tasks. -/
def OsGroup.targets (g : OsGroup) : List PerfTarget :=
  if g.cores ≠ [] then g.cores.map .core else g.tidMap.map .task

/-- The calls made of the kernel, and what a group gets: its arrays, empty where the pointer is
`NULL`, and its values. -/
structure OsMon where
  calls : List PerfCall
  fds : PerfCtr → List Nat
  values : EventValues

/-! ## Starting and stopping counters -/

section Counters

variable (k : PerfKernel) (g : OsGroup)

def OsMon.call (call : PerfCall) (s : OsMon) : OsMon := { s with calls := s.calls ++ [call] }

def perfSetupCounter (ctr : PerfCtr) (target : PerfTarget) : EStateM Err OsMon Nat := do
  match k.grant (requests (← get).calls) with
  | none =>
    modify (OsMon.call (.refused ctr target))
    throw .error
  | some fd =>
    modify (OsMon.call (.opened ctr target fd))
    return fd

def perfShutdownCounter (fd : Nat) : EStateM Err OsMon Unit := modify (OsMon.call (.closed fd))

/-- The array reaches the group when it is full. -/
def startPerfCounters (ctr : PerfCtr) : EStateM Err OsMon Unit := do
  failIf (g.targets = []) .error
  let ctrFds ← g.targets.mapM (perfSetupCounter k ctr)
  modify fun s => { s with fds := Function.update s.fds ctr ctrFds }

def stopPerfCounters (ctr : PerfCtr) : EStateM Err OsMon Unit := do
  failIf (g.targets = []) .error
  ((← get).fds ctr).forM perfShutdownCounter
  modify fun s => { s with fds := Function.update s.fds ctr [] }

end Counters

/-! ## Starting and stopping events -/

/-- What `start_events` and `stop_events` have on an event. -/
structure OsEvent where
  event : MonEvent
  /-- Where the event is not supported, the start returns past the label that undoes it. -/
  returns : Bool
  needs : List PerfCtr
  /-- The counters that come with the event, beside the events of the mask. -/
  ctrs : MonEvent → List PerfCtr
  reset : EventValues → EventValues

/-- An event with a counter of its own. -/
def OsEvent.ofCtr (event : MonEvent) (ctr : PerfCtr) : OsEvent :=
  ⟨event, true, [ctr], fun _ => [ctr], id⟩

def osL3Occup : OsEvent := .ofCtr monEventL3Occup .llc

def osLmemBw : OsEvent := .ofCtr monEventLmemBw .mbl

def osTmemBw : OsEvent := .ofCtr monEventTmemBw .mbt

def osRmemBw : OsEvent where
  event := monEventRmemBw
  returns := false
  needs := [.mbl, .mbt]
  ctrs evts := (if evts &&& monEventLmemBw = 0 then [.mbl] else [])
    ++ (if evts &&& monEventTmemBw = 0 then [.mbt] else [])
  reset pv := { pv with mbmRemote := 0 }

def osIpc : OsEvent where
  event := perfEventIpc
  returns := false
  needs := [.inst, .cyc]
  ctrs _ := [.inst, .cyc]
  reset pv := { pv with ipc := none }

def osLlcMiss : OsEvent := .ofCtr perfEventLlcMiss .llcMisses

/-- In the order of the source. -/
def osEvents : List OsEvent := [osL3Occup, osLmemBw, osTmemBw, osRmemBw, osIpc, osLlcMiss]

/-- How the start leaves its sequence of events before the end. -/
inductive StartExit
  | ret
  | startEventError (startedEvts : MonEvent)

section Events

variable (k : PerfKernel) (g : OsGroup)

def stopEvent (evts stoppedEvts : MonEvent) (e : OsEvent) : EStateM Err OsMon MonEvent := do
  if evts &&& e.event = 0 then return stoppedEvts
  let r : Except Err Unit ← attempt (tryAll .error (stopPerfCounters g) (e.ctrs evts))
  return if r.isOk then stoppedEvts ||| e.event else stoppedEvts

def stopEvents (evts : MonEvent) : EStateM Err OsMon Unit := do
  let stoppedEvts ← osEvents.foldlM (stopEvent g evts) 0
  failIf (evts ≠ stoppedEvts) .error

def OsEvent.supported (e : OsEvent) : Bool := e.needs.all k.supported

def startEvent (startedEvts : MonEvent) (e : OsEvent) : EStateM StartExit OsMon MonEvent := do
  if g.event &&& e.event = 0 then return startedEvts
  failIf (e.supported k = false) (if e.returns then .ret else .startEventError startedEvts)
  mapError (fun _ => .startEventError startedEvts)
    ((e.ctrs startedEvts).forM (startPerfCounters k g))
  modify fun s => { s with values := e.reset s.values }
  return startedEvts ||| e.event

/-- What stands at the label: whatever the group asks for and is not started, what is started is
stopped. -/
def startEventError (startedEvts : MonEvent) : EStateM Err OsMon Unit :=
  unless g.event = startedEvts do
    let _ : Except Err Unit ← attempt (stopEvents g startedEvts)

def startEvents : EStateM Err OsMon Unit := do
  match ← attempt (osEvents.foldlM (startEvent k g) 0) with
  | .error .ret => throw .error
  | .error (.startEventError startedEvts) =>
    startEventError g startedEvts
    throw .error
  | .ok startedEvts => startEventError g startedEvts

end Events

/-! ## Polling -/

def osGetDelta (oldValue newValue : Word) : Word :=
  if newValue < oldValue then (BitVec.allOnes 64 - oldValue) + newValue else newValue - oldValue

section Store

/-- `scale` is the floating-point product with the event's scale factor. -/
def osStoreLlc (scale : Word → Word) (total : Word) (pv : EventValues) : EventValues :=
  { pv with llc := scale total }

def osStoreLocal (total : Word) (pv : EventValues) : EventValues :=
  { pv with mbmLocal := total, mbmLocalDelta := osGetDelta pv.mbmLocal total }

def osStoreTotal (total : Word) (pv : EventValues) : EventValues :=
  { pv with mbmTotal := total, mbmTotalDelta := osGetDelta pv.mbmTotal total }

def osStoreRemote (pv : EventValues) : EventValues :=
  { pv with
    mbmRemoteDelta :=
      if pv.mbmLocalDelta < pv.mbmTotalDelta then pv.mbmTotalDelta - pv.mbmLocalDelta else 0 }

def osStoreRetired (total : Word) (pv : EventValues) : EventValues :=
  { pv with ipcRetired := total, ipcRetiredDelta := osGetDelta pv.ipcRetired total }

def osStoreUnhalted (total : Word) (pv : EventValues) : EventValues :=
  { pv with ipcUnhalted := total, ipcUnhaltedDelta := osGetDelta pv.ipcUnhalted total }

/-- The quotient is taken of the deltas where the count of cycles is not 0. -/
def osStoreIpc (pv : EventValues) : EventValues :=
  { pv with
    ipc := if 0#64 < pv.ipcUnhalted then some (pv.ipcRetiredDelta, pv.ipcUnhaltedDelta) else none }

def osStoreLlcMisses (total : Word) (pv : EventValues) : EventValues :=
  { pv with llcMisses := total, llcMissesDelta := osGetDelta pv.llcMisses total }

end Store

section Poll

variable {σ : Type} (hw : CounterHw σ) (scale : Word → Word) (g : OsGroup)
  (fds : PerfCtr → List Nat)

def perfReadCounter (fd : Nat) : EStateM Err σ Word := do
  failIf (fd = 0) .param
  mapError (fun _ => .error) (hw.readFd fd)

/-- The sum is stored when every counter was read. -/
def readPerfCounters (ctr : PerfCtr) : EStateM Err σ Word := do
  failIf (g.targets = []) .error
  let counts ← (fds ctr).mapM (perfReadCounter hw)
  return counts.sum

/-- What a poll stores of a counter, whose failure is an error whatever it was. -/
def pollCtr (mask : MonEvent) (ctr : PerfCtr) (store : Word → EventValues → EventValues) :
    EStateM Err (Polled σ) Unit :=
  pollEvent g.event mask (fun _ => mapError (fun _ => .error) (readPerfCounters hw g fds ctr)) store

def pollPerfCounters : EStateM Err (Polled σ) Unit := do
  pollCtr hw g fds monEventL3Occup .llc (osStoreLlc scale)
  pollCtr hw g fds (monEventLmemBw ||| monEventRmemBw) .mbl osStoreLocal
  pollCtr hw g fds (monEventTmemBw ||| monEventRmemBw) .mbt osStoreTotal
  pollEvent g.event monEventRmemBw (fun _ => pure ()) fun _ => osStoreRemote
  pollCtr hw g fds (perfEventInstructions ||| perfEventIpc) .inst osStoreRetired
  pollCtr hw g fds (perfEventCycles ||| perfEventIpc) .cyc osStoreUnhalted
  pollEvent g.event perfEventIpc (fun _ => pure ()) fun _ => osStoreIpc
  pollCtr hw g fds perfEventLlcMiss .llcMisses osStoreLlcMisses

end Poll

end Pqos
