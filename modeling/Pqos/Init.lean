import Pqos.Utils
import Pqos.Lib.CText
import Pqos.Lib.Prog

/-!
# Initialising and shutting down the library

`pqos_init` goes through its stages in order, and when one fails the ones before it are taken back.
What happens at a stage outside the library is told by the call's `InitEnv`: there is nothing it is
not allowed to be.
-/

namespace Pqos

open CText Prog

def pqosInterMsr : Int := 0
def pqosInterOs : Int := 1

/-- The caller's configuration: the interface, and where messages go to. -/
structure Config where
  interface : Int
  fdLog : Int
  callbackLog : Bool
  verbose : Int

/-- The outcomes of a call of `pqos_init`. -/
structure InitEnv where
  rdtIface : Option (List Char)
  openLock : Bool
  mutexInit : Bool
  buildTopo : Option CpuInfo
  mallocFds : Bool
  discoverCapabilities : CpuInfo → Except Err Cap
  discoverOsCapabilities : Cap → Except Err Unit × Cap
  monInit : Except Err Unit
  allocInit : Except Err Unit

/-- The globals of the library. Two modules hold the topology, the one that makes it and the one
that hands it out. -/
structure Lib where
  apilock : Bool
  held : Bool
  initDone : Bool
  logReady : Bool
  topology : Option CpuInfo
  msrFds : Option Nat
  cpu : Option CpuInfo
  cap : Option Cap

def Lib.start : Lib := ⟨false, false, false, false, none, none, none, none⟩

/-! ## The API lock -/

/-- The lock file may not be open already. -/
def pqosApiInit (env : InitEnv) : EStateM Err Lib Unit := do
  let s ← get
  failIf (s.apilock = true ∨ env.openLock = false ∨ env.mutexInit = false) .error
  set { s with apilock := true }

/-- Without an open lock file the lock is not taken, which is only reported. -/
def pqosApiLock : EStateM Err Lib Unit := modify fun s => { s with held := s.apilock }

def pqosApiUnlock : EStateM Err Lib Unit := modify fun s => { s with held := false }

def pqosApiExit : EStateM Err Lib Unit := modify fun s => { s with apilock := false }

/-! ## The stages -/

/-- The interface that `RDT_IFACE` asks for is the only one allowed. -/
def rdtAllows (rdtIface : Option (List Char)) (interface : Int) : Bool :=
  match rdtIface with
  | none => true
  | some environment =>
    if strcasecmp (environment.take 2) "OS".toList then interface = pqosInterOs
    else if strcasecmp (environment.take 3) "MSR".toList then interface = pqosInterMsr
    else false

/-- Only a silent log needs no destination. -/
def logInit (config : Config) : EStateM Err Lib Unit := do
  failIf (config.verbose ≠ -1 ∧ config.fdLog < 0 ∧ config.callbackLog = false) .error
  modify fun s => { s with logReady := true }

def logFini : EStateM Err Lib Unit := modify fun s => { s with logReady := false }

/-- Whatever the reason, a topology that cannot be had is an error. -/
def cpuinfoInit (env : InitEnv) : EStateM Err Lib CpuInfo := do
  let s ← get
  failIf (s.topology ≠ none) .error
  let cpu ← ofOption .error env.buildTopo
  set { s with topology := some cpu, cpu := some cpu }
  return cpu

def cpuinfoFini : EStateM Err Lib Unit := do
  let s ← get
  failIf (s.topology = none) .error
  set { s with topology := none }

/-- A machine with core 0 alone is refused. -/
def machineInit (env : InitEnv) (maxCoreId : Nat) : EStateM Err Lib Unit := do
  failIf (maxCoreId = 0) .param
  failIf (env.mallocFds = false) .error
  modify fun s => { s with msrFds := some (maxCoreId + 1) }

def machineFini : EStateM Err Lib Unit := do
  let s ← get
  failIf (s.msrFds = none) .error
  set { s with msrFds := none }

/-- Of the kernel's support only an error counts. -/
def discover (env : InitEnv) (cpu : CpuInfo) : EStateM Err Lib Unit := do
  let found ← ofExcept (env.discoverCapabilities cpu)
  modify fun s => { s with cap := some (env.discoverOsCapabilities found).2 }
  failIf ((env.discoverOsCapabilities found).1 = .error .error) .error

def apiInit (config : Config) : EStateM Err Lib Unit :=
  failIf (config.interface ≠ pqosInterMsr ∧ config.interface ≠ pqosInterOs) .param

/-- What monitoring returned is forgotten as soon as allocation returns, and what allocation
returned is what `pqos_init` goes on with. -/
def initTechnologies (env : InitEnv) : Except Err Unit :=
  let monInit := env.monInit.isOk
  let catInit := env.allocInit.isOk
  if env.allocInit = .error .busy then .error .busy
  else if catInit = false ∧ monInit = false then .error .error
  else env.allocInit

/-- From the topology's largest core on, with the table of driver files to be given back. -/
def initMachine (config : Config) (env : InitEnv) (cpu : CpuInfo) : EStateM Err Lib Unit := do
  machineInit env (cpu.lcores.foldr max 0)
  onError (do
    discover env cpu
    apiInit config
    ofExcept (initTechnologies env)) machineFini

def initStages (config : Config) (env : InitEnv) : EStateM Err Lib Unit := do
  logInit config
  onError (do
    let cpu ← cpuinfoInit env
    onError (initMachine config env cpu) cpuinfoFini) logFini

/-! ## The two calls -/

def checkInitDone (expect : Bool) : EStateM Err Lib Unit := do
  let s ← get
  failIf (s.initDone ≠ expect) .init

def pqosInit (config : Option Config) (env : InitEnv) : EStateM Err Lib Unit := do
  let config ← ofOption .param config
  failIf (rdtAllows env.rdtIface config.interface = false) .error
  pqosApiInit env
  pqosApiLock
  onError (checkInitDone false) pqosApiUnlock
  onError (initStages config env) (do
    modify fun s => { s with cpu := none, cap := none }
    pqosApiUnlock
    pqosApiExit)
  modify fun s => { s with initDone := true }
  pqosApiUnlock

/-- Whether the lock file closes and the mutex is destroyed. -/
abbrev FiniEnv := Bool

/-- Shutting down goes on after a failure, and reports the last one. -/
def pqosFini (env : FiniEnv) : EStateM Err Lib Unit := do
  pqosApiLock
  onError (checkInitDone true) (do
    pqosApiUnlock
    pqosApiExit)
  let topology : Except Err Unit ← attempt cpuinfoFini
  let fds : Except Err Unit ← attempt machineFini
  logFini
  modify fun s => { s with cpu := none, cap := none, initDone := false }
  pqosApiUnlock
  pqosApiExit
  failIf (env = false) .error
  ofExcept fds
  ofExcept topology

/-! ## Runs -/

inductive LibraryCall
  | init (config : Option Config) (env : InitEnv)
  | fini (env : FiniEnv)

def libraryCall : LibraryCall → EStateM Err Lib Unit
  | .init config env => pqosInit config env
  | .fini env => pqosFini env

/-- The state after a run of calls, whether they succeed or not. -/
def libraryRun (calls : List LibraryCall) : Lib :=
  calls.foldl (fun s c => final ((libraryCall c).run s)) .start

end Pqos
