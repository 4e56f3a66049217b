import Pqos.Api

/-!
# rdtset

The tool is given configurations, each for a set of CPUs or for tasks. It validates them all, then
gives each one unused classes and defines those on the sockets and clusters it concerns, and when a
configuration fails it releases the cores of that one and of those before it.
-/

namespace Pqos

open Prog

/-- Every status but 0. A value the library returned may come through as it is. -/
inductive Errno
  | einval | efault | ebusy | enodev | enotsup
  | lib (e : Err)
deriving DecidableEq, Repr

/-! ## Configurations -/

def L3ca.isValid (ca : L3ca) : Bool :=
  match ca.u with
  | .ways m => m ≠ 0
  | .s d c => c ≠ 0 && d ≠ 0

def L2ca.isValid (ca : L2ca) : Bool := ca.waysMask ≠ 0

def Mba.isValid (ca : Mba) : Bool := 0 < ca.mbRate && ca.mbRate ≤ 100

/-- A configuration as the parser leaves it: a definition that is not valid was not requested, and
one at least is valid. -/
structure RdtConfig where
  cpumask : BitVec 1024
  l3 : L3ca
  l2 : L2ca
  mba : Mba
  requests : l2.isValid = true ∨ l3.isValid = true ∨ mba.isValid = true
deriving DecidableEq

namespace RdtConfig

variable (c : RdtConfig)

/-- A configuration without CPUs is for tasks. -/
def pidCfg : Bool := c.cpumask = 0

def technology : Nat :=
  (if c.l2.isValid then 1 <<< 2 else 0) ||| (if c.l3.isValid then 1 <<< 1 else 0)
    ||| if c.mba.isValid then 1 <<< 3 else 0

end RdtConfig

/-- The command line: the configurations and the selected tasks, and the tool's own task. -/
structure Rdtset where
  config : List RdtConfig
  pids : List Nat
  pid : Nat

/-- The tasks a configuration for tasks is about. -/
def Rdtset.tasks (g : Rdtset) : List Nat := if g.pids = [] then [g.pid] else g.pids

/-- The library's state, and whether all calls that release cores or tasks succeeded so far. The
tool drops their results. -/
structure RdtState (σ : Type) where
  lib : σ
  released : Bool

variable {σ : Type} (p : Platform) (b : Backend σ)

/-- A call of the library whose failure is reported as `f` of its return value. -/
def libCall {α : Type} (f : Err → Errno) (x : EStateM Err σ α) : EStateM Errno (RdtState σ) α :=
  zoom RdtState.lib (fun s t => { t with lib := s }) (mapError f x)

/-- A releasing call, whose result is dropped. -/
def releaseCall (x : EStateM Err σ Unit) : EStateM Errno (RdtState σ) Unit := do
  let r : Except Errno Unit ← attempt (libCall (fun _ => .efault) x)
  modify fun t => { t with released := t.released && r.isOk }

/-! ## Validation -/

/-- The cores of a set, in the order of the topology. -/
def coresOf (cpumask : BitVec 1024) : List Nat := p.cpu.lcores.filter (cpumask.getLsbD ·)

def checkCpu (cpu : Nat) : EStateM Errno (RdtState σ) Unit := do
  failIf (p.cpu.getCoreInfo cpu = none) .enodev
  let cos ← libCall (fun _ => .efault) (pqosAllocAssocGet b cpu)
  failIf (cos ≠ 0) .ebusy

def checkCpus (config : List RdtConfig) : EStateM Errno (RdtState σ) Unit :=
  config.forM fun c => ((List.range 1024).filter (c.cpumask.getLsbD ·)).forM (checkCpu p b)

def checkSupported (c : RdtConfig) : Except Errno Unit :=
  if c.l3.isValid ∧ (p.capGetType CapItem.l3ca?).toOption = none then .error .enotsup
  else if c.l2.isValid ∧ (p.capGetType CapItem.l2ca?).toOption = none then .error .enotsup
  else if c.mba.isValid ∧ (p.capGetType CapItem.mba?).toOption = none then .error .enotsup
  else .ok ()

/-- CDP may be asked for where it is supported and enabled. -/
def checkCdpSupport (config : List RdtConfig) : Except Errno Unit :=
  if (p.capGetType CapItem.l3ca?).toOption.any fun c => c.cdp && c.cdpOn then .ok ()
  else if ∃ c ∈ config, c.l3.cdp = true then .error .enotsup
  else .ok ()

def notCbm (numWays : Nat) : Word := BitVec.allOnes 64 <<< numWays

/-- The masks of one technology against the ways it has. Overlapping ways under contention is only
worth a note. -/
def checkCbmLen (numWays : Nat) (contention : Word) (masks : List Word) : Except Errno Unit :=
  if notCbm numWays = BitVec.allOnes 64 ∨ contention = BitVec.allOnes 64 then .error .einval
  else masks.forM fun mask =>
    if mask = BitVec.allOnes 64 then .error .efault
    else if mask &&& notCbm numWays ≠ 0 then .error .enotsup
    else .ok ()

def L3Masks.cumulative : L3Masks → Word
  | ways m => m
  | s d c => c ||| d

def checkCbmLenAll (config : List RdtConfig) : Except Errno Unit := do
  (p.capGetType CapItem.l2ca?).toOption.forM fun c =>
    checkCbmLen c.numWays c.wayContention
      ((config.filter fun c => c.l2.isValid).map fun c => c.l2.waysMask.setWidth 64)
  (p.capGetType CapItem.l3ca?).toOption.forM fun c =>
    checkCbmLen c.numWays c.wayContention
      ((config.filter fun c => c.l3.isValid).map fun c => c.l3.u.cumulative)

def checkCpusOverlapping : List RdtConfig → Except Errno Unit
  | [] => .ok ()
  | c :: config =>
    if ∃ d ∈ config, c.cpumask &&& d.cpumask ≠ 0 then .error .einval
    else checkCpusOverlapping config

def allocValidate (config : List RdtConfig) : EStateM Errno (RdtState σ) Unit := do
  checkCpus p b config
  ofExcept (config.forM (checkSupported p))
  ofExcept (checkCdpSupport p config)
  ofExcept (checkCbmLenAll p config)
  ofExcept (checkCpusOverlapping config)

/-! ## Classes -/

/-- The definition of a class where none was requested. -/
def CapL3ca.default (c : CapL3ca) : L3Masks :=
  if c.cdpOn then .s (fullMask c.numWays) (fullMask c.numWays) else .ways (fullMask c.numWays)

def cfgConfigureL3 (cfg : RdtConfig) (ci : CoreInfo) (cosId : Nat) (c : CapL3ca) :
    EStateM Errno (RdtState σ) Unit :=
  if cosId < c.numClasses then
    libCall (fun _ => .efault) (pqosL3caSet b ci.socket
      [⟨cosId, if cfg.l3.isValid then cfg.l3.u else c.default⟩])
  else return

def cfgConfigureL2 (cfg : RdtConfig) (ci : CoreInfo) (cosId : Nat) (c : CapL2ca) :
    EStateM Errno (RdtState σ) Unit :=
  if cosId < c.numClasses then
    libCall (fun _ => .efault) (pqosL2caSet b ci.l2Id
      [⟨cosId, if cfg.l2.isValid then cfg.l2.waysMask else (fullMask c.numWays).setWidth 32⟩])
  else return

def cfgConfigureMba (cfg : RdtConfig) (ci : CoreInfo) (cosId : Nat) (c : CapMba) :
    EStateM Errno (RdtState σ) Unit :=
  if cosId < c.numClasses then do
    let _ ← libCall (fun _ => .efault) (pqosMbaSet b ci.socket
      [⟨cosId, if cfg.mba.isValid then cfg.mba.mbRate else 100⟩] true)
    return
  else return

/-- Define a class of every technology that has it, where `core` sits. -/
def cfgConfigureCos (cfg : RdtConfig) (core cosId : Nat) : EStateM Errno (RdtState σ) Unit := do
  let l3 := (p.capGetType CapItem.l3ca?).toOption
  let l2 := (p.capGetType CapItem.l2ca?).toOption
  let mba := (p.capGetType CapItem.mba?).toOption
  failIf (l2 = none ∧ l3 = none) .efault
  let ci ← ofOption .einval (p.cpu.getCoreInfo core)
  l3.forM (cfgConfigureL3 b cfg ci cosId)
  l2.forM (cfgConfigureL2 b cfg ci cosId)
  mba.forM (cfgConfigureMba b cfg ci cosId)

/-- The number of ids to try, zero when there is nothing to do. -/
def getMaxResId (technology : Nat) : Nat :=
  max (if l2Req technology then p.cpu.getL2ids.length else 0)
    (if l3Req technology ∨ mbaReq technology then p.cpu.getSockets.length else 0)

def assignErrno : Err → Errno
  | .resource => .ebusy
  | _ => .efault

/-- The cores of a set on the socket, or in the L2 cluster, with an id. -/
def resCores (cfg : RdtConfig) (id : Nat) : List Nat :=
  (p.cpu.cores.filter fun c => scopeId cfg.technology c = id ∧ cfg.cpumask.getLsbD c.lcore).map
    CoreInfo.lcore

/-- On one id, give the set's cores a class and define it. -/
def cfgSetId (cfg : RdtConfig) (id : Nat) : EStateM Errno (RdtState σ) Unit :=
  match resCores p cfg id with
  | [] => return
  | core :: cores => do
    let cosId ← libCall assignErrno (pqosAllocAssign b cfg.technology (core :: cores))
    cfgConfigureCos p b cfg core cosId

def cfgSetCoresMsr (cfg : RdtConfig) : EStateM Errno (RdtState σ) Unit := do
  failIf (getMaxResId p cfg.technology = 0) .efault
  (List.range (getMaxResId p cfg.technology)).forM (cfgSetId p b cfg)

/-- On one id, define the class where the set has a core. -/
def cfgDefineId (cfg : RdtConfig) (cosId id : Nat) : EStateM Errno (RdtState σ) Unit :=
  match resCores p cfg id with
  | [] => return
  | core :: _ => cfgConfigureCos p b cfg core cosId

def cfgSetCoresOs (cfg : RdtConfig) : EStateM Errno (RdtState σ) Unit := do
  failIf (coresOf p cfg.cpumask = []) .efault
  let cosId ← libCall assignErrno (pqosAllocAssign b cfg.technology (coresOf p cfg.cpumask))
  failIf (getMaxResId p cfg.technology = 0) .efault
  (List.range (getMaxResId p cfg.technology)).forM (cfgDefineId p b cfg cosId)

/-- On one id, define the class of the tasks. -/
def cfgPidId (cfg : RdtConfig) (cosId id : Nat) : EStateM Errno (RdtState σ) Unit := do
  let core ← libCall .lib (ofExcept
    (if l2Req cfg.technology then p.cpu.getOneByL2id id else p.cpu.getOneCore id))
  cfgConfigureCos p b cfg core cosId

/-- Where it fails it releases the tasks, except where there is no id to try. -/
def cfgSetPids (tasks : List Nat) (cfg : RdtConfig) : EStateM Errno (RdtState σ) Unit := do
  let cosId ← onError (libCall assignErrno (pqosAllocAssignPid b cfg.technology tasks))
    (releaseCall (pqosAllocReleasePid b tasks))
  failIf (getMaxResId p cfg.technology = 0) .efault
  onError ((List.range (getMaxResId p cfg.technology)).forM (cfgPidId p b cfg cosId))
    (releaseCall (pqosAllocReleasePid b tasks))

/-! ## The whole -/

def cfgSet (tasks : List Nat) (cfg : RdtConfig) : EStateM Errno (RdtState σ) Unit :=
  if cfg.pidCfg then cfgSetPids p b tasks cfg
  else if b.interface = .msr then cfgSetCoresMsr p b cfg
  else cfgSetCoresOs p b cfg

/-- Release the cores of a set. There is nothing to do for an empty one. -/
def rdtRelease (cpumask : BitVec 1024) : EStateM Err σ Unit :=
  if cpumask = 0 then return else pqosAllocRelease b (coresOf p cpumask)

/-- Configurations for tasks are passed over. -/
def revert (cfg : RdtConfig) : EStateM Errno (RdtState σ) Unit :=
  if cfg.pidCfg then return else releaseCall (rdtRelease p b cfg.cpumask)

/-- Configure one after another, where `done` are those configured, the last one first. -/
def configureFrom (tasks : List Nat) :
    List RdtConfig → List RdtConfig → EStateM Errno (RdtState σ) Unit
  | _, [] => return
  | done, cfg :: config => do
    onError (cfgSet p b tasks cfg) ((cfg :: done).forM (revert p b))
    configureFrom tasks (cfg :: done) config

def allocConfigure (g : Rdtset) : EStateM Errno (RdtState σ) Unit := do
  allocValidate p b g.config
  configureFrom p b g.tasks [] g.config

end Pqos
