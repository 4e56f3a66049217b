import Pqos.Monitoring
import Mathlib.Data.BitVec

/-!
# Polling on the MSR interface

A poll adds up what the counters of a group show and reports how far each sum moved. Counters move
while the library reads them, so the machine here answers every access for itself and may be in any
state when a poll begins.
-/

namespace Pqos

open Prog

/-- A machine whose counters move: its MSR accesses, and reads of eight bytes from a descriptor. -/
structure CounterHw (σ : Type) where
  read : Nat → Nat → EStateM Unit σ Word
  write : Nat → Nat → Word → EStateM Unit σ Unit
  readFd : Int → EStateM Unit σ Word
  /-- What a variable holds that nothing was stored to. -/
  stale : σ → Word

structure EventValues where
  llc : Word
  mbmLocal : Word
  mbmTotal : Word
  mbmRemote : Word
  mbmLocalDelta : Word
  mbmTotalDelta : Word
  mbmRemoteDelta : Word
  ipcRetired : Word
  ipcRetiredDelta : Word
  ipcRetiredPid : Word
  ipcRetiredDeltaPid : Word
  ipcUnhalted : Word
  ipcUnhaltedDelta : Word
  /-- The operands of the quotient, where there is one. -/
  ipc : Option (Word × Word)
  llcMisses : Word
  llcMissesDelta : Word
  fdIns : Int
deriving DecidableEq

/-- What a group carries from poll to poll. -/
structure PollValues where
  values : EventValues
  validMbmRead : Bool
deriving DecidableEq

/-- The machine, and the values of the group that is polled. -/
structure Polled (σ : Type) where
  hw : σ
  group : PollValues

def msrMonQmc : Nat := 0xC8E
def msrMonEvtSel : Nat := 0xC8D

def monQmcError : Word := 1#64 <<< 63
def monQmcUnavailable : Word := 1#64 <<< 62
def monQmcDataMask : Word := (1#64 <<< 62) - 1#64

/-- `MBM_MAX_VALUE`, an `int` in 64-bit arithmetic. -/
def mbmMaxValue : Word := 1#64 <<< 24

/-! ## Small utils -/

def getEventId (event : MonEvent) : Nat :=
  if event = monEventL3Occup then 1
  else if event = monEventLmemBw then 3
  else if event = monEventTmemBw then 2
  else 0

def getDelta (oldValue newValue : Word) : Word :=
  if newValue < oldValue then (mbmMaxValue - oldValue) + newValue else newValue - oldValue

/-- A value of an event the platform does not have stays as it is. -/
def scaleEvent (p : Platform) (event : MonEvent) (val : Word) : Word :=
  match p.capGetEvent event with
  | .error _ => val
  | .ok pmon => val * pmon.scaleFactor.setWidth 64

/-! ## Reading -/

section Read

variable {σ : Type} (hw : CounterHw σ)

def hwRead (lcore reg : Nat) : EStateM Err σ Word := mapError (fun _ => .error) (hw.read lcore reg)

def evtSel (rmid event : Nat) : Word :=
  ((BitVec.ofNat 64 rmid &&& 0x3ff#64) <<< 32) ||| (BitVec.ofNat 64 event &&& 0xff#64)

/-- Read the data register until data is available, at most `retries` times more. What the last
read returned stands, available or not. -/
def monReadQmc (lcore retries : Nat) : EStateM Err σ Word := do
  let val ← hwRead hw lcore msrMonQmc
  failIf (val &&& monQmcError ≠ 0) .error
  match retries with
  | 0 => return val
  | retries + 1 =>
    if val &&& monQmcUnavailable ≠ 0 then monReadQmc lcore retries else return val

def monRead (lcore rmid event : Nat) : EStateM Err σ Word := do
  mapError (fun _ => .error) (hw.write lcore msrMonEvtSel (evtSel rmid event))
  let val ← monReadQmc hw lcore 2
  return val &&& monQmcDataMask

variable (g : MonData)

/-- An event of every cluster of the group. -/
def monReadings (event : MonEvent) : EStateM Err σ (List Word) :=
  g.pollCtx.mapM fun ctx => monRead hw ctx.lcore ctx.rmid (getEventId event)

def monTotal (event : MonEvent) : EStateM Err σ Word := List.sum <$> monReadings hw g event

/-- The sums of the cores' fixed counters, and the count of the process. -/
structure IpcSums where
  retired : Word
  unhalted : Word
  retiredPid : Word
deriving DecidableEq

/-- Whether the read succeeded is not checked. -/
def readCount (fd : Int) : EStateM Err σ Word := do
  let count ← attempt (hw.readFd fd)
  match count with
  | .ok count => return count
  | .error _ => return hw.stale (← get)

def ipcCore (core : Nat) : EStateM Err σ (Word × Word) := do
  let retired ← hwRead hw core msrInstRetiredAny
  let unhalted ← hwRead hw core msrCpuUnhaltedRef
  return (retired, unhalted)

def ipcSums (fdIns : Int) : EStateM Err σ IpcSums := do
  let sums ← g.cores.mapM (ipcCore hw)
  let retiredPid ← readCount hw fdIns
  return ⟨(sums.map Prod.fst).sum, (sums.map Prod.snd).sum, retiredPid⟩

def llcMissSum : EStateM Err σ Word :=
  List.sum <$> g.cores.mapM fun core => hwRead hw core msrPmc0

end Read

/-! ## What is stored -/

section Store

variable (p : Platform)

def storeLlc (total : Word) (pv : EventValues) : EventValues :=
  { pv with llc := scaleEvent p monEventL3Occup total }

def storeLocal (total : Word) (pv : EventValues) : EventValues :=
  { pv with
    mbmLocal := total
    mbmLocalDelta := scaleEvent p monEventLmemBw (getDelta pv.mbmLocal total) }

def storeTotal (total : Word) (pv : EventValues) : EventValues :=
  { pv with
    mbmTotal := total
    mbmTotalDelta := scaleEvent p monEventTmemBw (getDelta pv.mbmTotal total) }

def storeRemote (pv : EventValues) : EventValues :=
  { pv with
    mbmRemote := if pv.mbmLocal < pv.mbmTotal then pv.mbmTotal - pv.mbmLocal else 0
    mbmRemoteDelta :=
      if pv.mbmLocalDelta < pv.mbmTotalDelta then pv.mbmTotalDelta - pv.mbmLocalDelta else 0 }

def storeIpc (sums : IpcSums) (pv : EventValues) : EventValues :=
  let unhalted := sums.unhalted - pv.ipcUnhalted
  let retired := sums.retired - pv.ipcRetired
  { pv with
    ipcUnhaltedDelta := unhalted
    ipcRetiredDelta := retired
    ipcUnhalted := sums.unhalted
    ipcRetired := sums.retired
    ipc := if unhalted = 0 then none else some (retired, unhalted)
    ipcRetiredDeltaPid := sums.retiredPid - pv.ipcRetiredPid
    ipcRetiredPid := sums.retiredPid }

def storeLlcMisses (missed : Word) (pv : EventValues) : EventValues :=
  { pv with llcMissesDelta := missed - pv.llcMisses, llcMisses := missed }

/-- The first poll reports no bandwidth. -/
def reportFirst (s : PollValues) : PollValues :=
  if s.validMbmRead then s
  else
    ⟨{ s.values with mbmRemoteDelta := 0, mbmLocalDelta := 0, mbmTotalDelta := 0 }, true⟩

end Store

/-! ## Polling -/

section Poll

variable {σ : Type} (hw : CounterHw σ) (p : Platform) (g : MonData)

/-- Read what the events of a mask need and store it, if the group's event has one of them. -/
def pollEvent {α : Type} (event mask : MonEvent) (reads : EventValues → EStateM Err σ α)
    (store : α → EventValues → EventValues) : EStateM Err (Polled σ) Unit :=
  unless event &&& mask = 0 do
    let s ← get
    let a ← zoom Polled.hw (fun h s => { s with hw := h }) (reads s.group.values)
    modify fun s => { s with group := { s.group with values := store a s.group.values } }

def pqosCorePoll : EStateM Err (Polled σ) Unit := do
  pollEvent g.event monEventL3Occup (fun _ => monTotal hw g monEventL3Occup) (storeLlc p)
  pollEvent g.event (monEventLmemBw ||| monEventRmemBw) (fun _ => monTotal hw g monEventLmemBw)
    (storeLocal p)
  pollEvent g.event (monEventTmemBw ||| monEventRmemBw) (fun _ => monTotal hw g monEventTmemBw)
    (storeTotal p)
  pollEvent g.event monEventRmemBw (fun _ => pure ()) fun _ => storeRemote
  pollEvent g.event perfEventIpc (fun pv => ipcSums hw g pv.fdIns) storeIpc
  pollEvent g.event perfEventLlcMiss (fun _ => llcMissSum hw g) storeLlcMisses
  modify fun s => { s with group := reportFirst s.group }

/-- The machine, and the values of every group. -/
structure Groups (σ : Type) where
  hw : σ
  group : Nat → PollValues

/-- A group that cannot be polled is only warned about. -/
def hwMonPoll (groups : List (Nat × MonData)) : EStateM Err (Groups σ) Unit :=
  groups.forM fun g => do
    let _ : Except Err Unit ← attempt
      (zoom (fun s => Polled.mk s.hw (s.group g.1))
        (fun t s => ⟨t.hw, Function.update s.group g.1 t.group⟩) (pqosCorePoll hw p g.2))

end Poll

end Pqos
