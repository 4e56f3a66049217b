import Mathlib.Algebra.Group.Nat.Defs
import Mathlib.Data.List.Nodup
import Mathlib.Tactic.Common

/-!
# Capabilities, topology and class tables

The data the library is handed at initialisation and the tables its callers pass: what the
platform can allocate and monitor (`Cap`), which logical core sits where (`CpuInfo`), and the
class definitions of the three allocation technologies (`L3ca`, `L2ca`, `Mba`).
-/

namespace Pqos

/-- An MSR value, and a way mask. -/
abbrev Word := BitVec 64

/-- Every return value but `PQOS_RETVAL_OK`. -/
inductive Err
  | error | param | resource | init | transport | perfCtr | busy
deriving DecidableEq, Repr

inductive Interface
  | msr | os
deriving DecidableEq, Repr

inductive CdpConfig
  | requireCdpOff | requireCdpOn | requireCdpAny
deriving DecidableEq, Repr

structure CapL3ca where
  numClasses : Nat
  numWays : Nat
  wayContention : Word
  cdp : Bool
  cdpOn : Bool
deriving DecidableEq, Repr

structure CapL2ca where
  numClasses : Nat
  numWays : Nat
  wayContention : Word
deriving DecidableEq, Repr

structure CapMba where
  numClasses : Nat
  throttleMax : Nat
  throttleStep : Nat
  isLinear : Bool
deriving DecidableEq, Repr

/-- A set of monitoring events, one bit each. -/
abbrev MonEvent := BitVec 32

structure Monitor where
  type : MonEvent
  maxRmid : Nat
  osSupport : Bool
  scaleFactor : BitVec 32
deriving DecidableEq, Repr

structure CapMon where
  maxRmid : Nat
  events : List Monitor
deriving DecidableEq, Repr

inductive CapItem
  | mon (c : CapMon)
  | l3ca (c : CapL3ca)
  | l2ca (c : CapL2ca)
  | mba (c : CapMba)
deriving DecidableEq, Repr

namespace CapItem

def mon? : CapItem → Option CapMon
  | mon c => some c
  | _ => none

def l3ca? : CapItem → Option CapL3ca
  | l3ca c => some c
  | _ => none

def l2ca? : CapItem → Option CapL2ca
  | l2ca c => some c
  | _ => none

def mba? : CapItem → Option CapMba
  | mba c => some c
  | _ => none

end CapItem

structure Capability where
  osSupport : Bool
  u : CapItem
deriving DecidableEq, Repr

abbrev Cap := List Capability

structure CoreInfo where
  lcore : Nat
  socket : Nat
  l3Id : Nat
  l2Id : Nat
deriving DecidableEq, Repr

/-- The topology: discovery lists every online logical core once, and fails when it finds none. -/
structure CpuInfo where
  cores : List CoreInfo
  nodup : (cores.map CoreInfo.lcore).Nodup
  nonempty : cores ≠ []

def CpuInfo.lcores (cpu : CpuInfo) : List Nat := cpu.cores.map CoreInfo.lcore

/-- The masks of an L3 class: one for all ways, or one for code and one for data. -/
inductive L3Masks
  | ways (waysMask : Word)
  | s (dataMask codeMask : Word)
deriving DecidableEq, Repr

structure L3ca where
  classId : Nat
  u : L3Masks
deriving DecidableEq, Repr

def L3ca.cdp (ca : L3ca) : Bool :=
  match ca.u with
  | .ways _ => false
  | .s _ _ => true

structure L2ca where
  classId : Nat
  waysMask : BitVec 32
deriving DecidableEq, Repr

structure Mba where
  classId : Nat
  mbRate : Nat
deriving DecidableEq, Repr

/-! A set of technologies is a mask with the bit of each capability type. -/

def l3Req (technology : Nat) : Bool := technology.testBit 1

def l2Req (technology : Nat) : Bool := technology.testBit 2

def mbaReq (technology : Nat) : Bool := technology.testBit 3

end Pqos
