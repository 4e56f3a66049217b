import Pqos.Lib.Table
import Pqos.Rdtset

/-!
# Who gets which class

A run of rdtset on the MSR interface seen from outside: one resource id after another, the CPUs of a
configuration under it are granted a class, the highest that is free where they are, and the class
is defined where the first of them sits. Which classes that makes follows from the topology, the
capabilities and the classes the cores had.
-/

namespace Pqos

variable (p : Platform)

/-- CPUs of a configuration that are given a class together. It is defined where `first` sits. -/
structure Grant where
  cfg : RdtConfig
  first : CoreInfo
  rest : List CoreInfo
  classId : Nat
deriving DecidableEq

namespace Grant

def members (a : Grant) : List CoreInfo := a.first :: a.rest

/-- The classes of all cores once the members have theirs. -/
def give (f : Nat → Nat) (a : Grant) (lcore : Nat) : Nat :=
  if lcore ∈ a.members.map CoreInfo.lcore then a.classId else f lcore

end Grant

/-- The CPUs of a configuration on the socket, or in the L2 cluster, with an id. -/
def resInfos (cfg : RdtConfig) (id : Nat) : List CoreInfo :=
  p.cpu.cores.filter fun c => scopeId cfg.technology c = id ∧ cfg.cpumask.getLsbD c.lcore

/-- The highest class that all requested technologies have and no core under the id is in. -/
def freeClass (technology id : Nat) (f : Nat → Nat) : Option Nat :=
  (getHiCosId p technology).toOption.bind fun hi =>
    findUnused (((p.cpu.getCoresPerTopologyObj (scopeId technology) id).map f).filter (· ≤ hi)) hi

/-- The resource ids that each configuration is tried on, in order. -/
def idSteps (config : List RdtConfig) : List (RdtConfig × Nat) :=
  config.flatMap fun cfg => (List.range (getMaxResId p cfg.technology)).map (cfg, ·)

/-- The grants of a run that finds a class for everyone, from the classes `f` on. -/
def plan : (Nat → Nat) → List (RdtConfig × Nat) → Option (List Grant)
  | _, [] => some []
  | f, (cfg, id) :: steps =>
    match resInfos p cfg id with
    | [] => plan f steps
    | first :: rest => do
      let classId ← freeClass p cfg.technology id f
      let grants ← plan (Grant.give f ⟨cfg, first, rest, classId⟩) steps
      return ⟨cfg, first, rest, classId⟩ :: grants

/-! ## The registers of a class -/

/-- The registers of a class of one technology, none where it does not have the class. -/
def capRegs {α : Type} (cap : Except Err α) (numClasses : α → Nat) (classId : Nat)
    (regs : α → List (Loc × Word)) : List (Loc × Word) :=
  match cap with
  | .ok c => if classId < numClasses c then regs c else []
  | .error _ => []

def l3Regs (u : L3Masks) (socket classId : Nat) (c : CapL3ca) : List (Loc × Word) :=
  if c.cdpOn then
    [(.socket socket (l3caReg true classId), u.dataMask),
      (.socket socket ((l3caReg true classId + 1) % 2 ^ 32), u.codeMask)]
  else [(.socket socket (l3caReg false classId), u.dataMask)]

def l2Regs (mask : BitVec 32) (l2id classId : Nat) : List (Loc × Word) :=
  [(.cluster l2id (l2caReg classId), mask.setWidth 64)]

def mbaRegs (delay socket classId : Nat) : List (Loc × Word) :=
  [(.socket socket (mbaReg classId), BitVec.ofNat 64 delay)]

/-- What a configuration asks of a technology, the default where it requests nothing of it. -/
def RdtConfig.l3Masks (cfg : RdtConfig) (c : CapL3ca) : L3Masks :=
  if cfg.l3.isValid then cfg.l3.u else c.default

def RdtConfig.l2Mask (cfg : RdtConfig) (c : CapL2ca) : BitVec 32 :=
  if cfg.l2.isValid then cfg.l2.waysMask else (fullMask c.numWays).setWidth 32

def RdtConfig.mbaRate (cfg : RdtConfig) : Nat := if cfg.mba.isValid then cfg.mba.mbRate else 100

/-- The delay that leaves the rounded rate, as far as the hardware's delays go. -/
def mbaAsked (c : CapMba) (rate : Nat) : Nat :=
  min (100 - mbaRound c.throttleStep rate) c.throttleMax

/-- The registers that make up a class where the CPU `ci` sits, with what the configuration asks to
be in them; `delay` turns a rate into a delay. -/
def classRegs (delay : CapMba → Nat → Nat) (cfg : RdtConfig) (classId : Nat) (ci : CoreInfo) :
    List (Loc × Word) :=
  capRegs (p.capGetType CapItem.l3ca?) CapL3ca.numClasses classId
      (fun c => l3Regs (cfg.l3Masks c) ci.socket classId c)
    ++ capRegs (p.capGetType CapItem.l2ca?) CapL2ca.numClasses classId
      (fun c => l2Regs (cfg.l2Mask c) ci.l2Id classId)
    ++ capRegs (p.capGetType CapItem.mba?) CapMba.numClasses classId
      (fun c => mbaRegs (delay c cfg.mbaRate) ci.socket classId)

/-- What defining the class writes. -/
def Grant.written (a : Grant) : List (Loc × Word) := classRegs p mbaDelay a.cfg a.classId a.first

/-- What the class is to be where a member sits. -/
def Grant.asked (a : Grant) (ci : CoreInfo) : List (Loc × Word) :=
  classRegs p mbaAsked a.cfg a.classId ci

end Pqos
