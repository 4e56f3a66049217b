import Pqos.Monitoring
import Pqos.Lib.CText
import Mathlib.Data.List.Infix

/-!
# Discovering the capabilities

Each technology is looked for by CPUID. L3 allocation is also there on some models that CPUID does
not report it on: those are known by name, and failing that by their registers. What the kernel
supports of it is read from two files of `/proc`.
-/

namespace Pqos

open CText Prog

structure CpuidOut where
  eax : BitVec 32
  ebx : BitVec 32
  ecx : BitVec 32
  edx : BitVec 32
deriving DecidableEq

structure CacheInfo where
  detected : Bool
  numWays : Nat
deriving DecidableEq

/-- What the processor says of itself: the registers of each CPUID leaf and subleaf, and the two
caches as the topology describes them. -/
structure Chip where
  lcpuid : Nat → Nat → CpuidOut
  l3 : CacheInfo
  l2 : CacheInfo

/-- A number CPUID reports is one less than what it counts, and the sum is 32 bits wide. -/
def onePlus (v : BitVec 32) : Nat := (v + 1#32).toNat

/-! ## Monitoring -/

def monEventOf (res : CpuidOut) (type : MonEvent) : Monitor :=
  ⟨type, onePlus res.ecx, false, res.ebx⟩

/-- The events of the cache and of memory that subleaf 1 of leaf 0xf reports. Remote bandwidth is
what is left of the total without the local one. -/
def l3EventsOf (res : CpuidOut) : List Monitor :=
  (if res.edx.getLsbD 0 then [monEventOf res monEventL3Occup] else [])
    ++ (if res.edx.getLsbD 1 then [monEventOf res monEventTmemBw] else [])
    ++ (if res.edx.getLsbD 2 then [monEventOf res monEventLmemBw] else [])
    ++ (if res.edx.getLsbD 1 ∧ res.edx.getLsbD 2 then [monEventOf res monEventRmemBw] else [])

def perfEventsOf (res : CpuidOut) : List Monitor :=
  (if res.ebx &&& 3#32 = 0 ∧ 1 < (res.edx &&& 31#32).toNat then [⟨perfEventIpc, 0, false, 0⟩]
    else [])
    ++ (if 1 < ((res.eax >>> 8) &&& 0xff#32).toNat then [⟨perfEventLlcMiss, 0, false, 0⟩] else [])

def discoverMonitoring (hw : Chip) : Except Err CapMon :=
  if (hw.lcpuid 0x7 0).ebx.getLsbD 12 = false ∨ (hw.lcpuid 0xf 0).edx.getLsbD 1 = false then
    .error .resource
  else if hw.l3.detected = false ∨ l3EventsOf (hw.lcpuid 0xf 1) = [] then .error .error
  else .ok ⟨onePlus (hw.lcpuid 0xf 0).ebx,
    l3EventsOf (hw.lcpuid 0xf 1) ++ perfEventsOf (hw.lcpuid 0xa 0)⟩

/-! ## L3 allocation -/

variable (p : Platform)

def cdpReadSocket (socket : Nat) : EStateM Err Msr Bool := do
  let core ← ofExcept (p.cpu.getOneCore socket)
  let reg ← msrRead p core msrL3QosCfg
  return cdpBit reg

/-- CDP has to be on for all sockets or for none. -/
def cdpIsEnabled : EStateM Err Msr Bool := do
  let bits ← p.cpu.getSockets.mapM (cdpReadSocket p)
  failIf (false ∈ bits ∧ true ∈ bits) .error
  return decide (true ∈ bits)

def discoverAllocL3Cpuid (hw : Chip) : EStateM Err Msr CapL3ca := do
  failIf ((hw.lcpuid 0x10 0).ebx.getLsbD 1 = false) .resource
  let res := hw.lcpuid 0x10 1
  let cap : CapL3ca :=
    ⟨onePlus res.edx, onePlus res.eax, res.ebx.setWidth 64, res.ecx.getLsbD 2, false⟩
  if cap.cdp then do
    let cdpOn ← cdpIsEnabled p
    return if cdpOn then { cap with cdpOn := true, numClasses := cap.numClasses / 2 } else cap
  else return cap

/-- The four characters of a register, lowest byte first. -/
def brandChars (v : BitVec 32) : List Char :=
  [0, 8, 16, 24].map fun i => Char.ofNat (v.extractLsb' i 8).toNat

def brandStr (hw : Chip) : List Char :=
  [0x80000002, 0x80000003, 0x80000004].flatMap fun leaf =>
    let res := hw.lcpuid leaf 0
    [res.eax, res.ebx, res.ecx, res.edx].flatMap brandChars

def supportedBrands : List String :=
  ["E5-2658 v3", "E5-2648L v3", "E5-2628L v3", "E5-2618L v3", "E5-2608L v3", "E5-2658A v3",
    "E3-1258L v4", "E3-1278L v4"]

/-- Whether `needle` is in the string that starts `s`. -/
def strstr (s : List Char) (needle : String) : Bool := needle.toList <:+: cstr s

/-- The number of classes of a model known by name. -/
def discoverAllocL3Brandstr (hw : Chip) : Except Err Nat :=
  if (hw.lcpuid 0x80000000 0).eax.toNat < 0x80000004 then .error .error
  else if ∃ brand ∈ supportedBrands, strstr (brandStr hw) brand then .ok 4
  else .error .resource

/-- How many of the `n` registers from number `reg` on can be read one after another. -/
def probeRegs (lcore : Nat) : Nat → Nat → EStateM Err Msr Nat
  | 0, _ => return 0
  | n + 1, reg => do
    let r : Except Err Word ← attempt (msrRead p lcore reg)
    if r.isOk then (· + 1) <$> probeRegs lcore n (reg + 1) else return 0

def discoverAllocL3Probe : EStateM Err Msr Nat := do
  let lcore := (p.cpu.cores.head p.cpu.nonempty).lcore
  let i ← probeRegs p lcore (msrL3caMaskEnd - msrL3caMaskStart + 1) msrL3caMaskStart
  failIf (i = 0) .resource
  return i

/-- The number of classes where CPUID does not tell it: by name if the model is known, else by
probing. -/
def l3ClassesUnlisted (hw : Chip) : EStateM Err Msr Nat :=
  match discoverAllocL3Brandstr hw with
  | .ok n => return n
  | .error _ => discoverAllocL3Probe p

/-- An L3 cache that was not detected leaves the technology out. -/
def discoverAllocL3 (hw : Chip) : EStateM Err Msr CapL3ca := do
  if (hw.lcpuid 0x7 0).ebx.getLsbD 15 then do
    let cap ← discoverAllocL3Cpuid p hw
    failIf (hw.l3.detected = false) .resource
    return cap
  else do
    let n ← l3ClassesUnlisted p hw
    failIf (hw.l3.detected = false) .resource
    return ⟨n, hw.l3.numWays, 0, false, false⟩

/-! ## L2 and memory bandwidth allocation -/

def discoverAllocL2 (hw : Chip) : Except Err CapL2ca :=
  if (hw.lcpuid 0x7 0).ebx.getLsbD 15 = false ∨ (hw.lcpuid 0x10 0).ebx.getLsbD 2 = false then
    .error .resource
  else if hw.l2.detected = false then .error .error
  else
    let res := hw.lcpuid 0x10 2
    .ok ⟨onePlus res.edx, onePlus res.eax, res.ebx.setWidth 64⟩

def discoverMba (hw : Chip) : Except Err CapMba :=
  if (hw.lcpuid 0x7 0).ebx.getLsbD 15 = false ∨ (hw.lcpuid 0x10 0).ebx.getLsbD 3 = false then
    .error .resource
  else
    let res := hw.lcpuid 0x10 3
    discoverAllocMba res.eax res.ecx res.edx

/-! ## All of them -/

/-- A technology that is not there is left out; any other failure ends the discovery. -/
def detected {α : Type} (item : α → CapItem) : Except Err α → Except Err Cap
  | .ok c => .ok [⟨false, item c⟩]
  | .error .resource => .ok []
  | .error _ => .error .error

def discoverCapabilities (hw : Chip) : EStateM Err Msr Cap := do
  let detMon ← ofExcept (detected .mon (discoverMonitoring hw))
  let r ← attempt (discoverAllocL3 p hw)
  let detL3ca ← ofExcept (detected .l3ca r)
  let detL2ca ← ofExcept (detected .l2ca (discoverAllocL2 hw))
  let detMba ← ofExcept (detected .mba (discoverMba hw))
  let cap := detMon ++ detL3ca ++ detL2ca ++ detMba
  failIf (cap = []) .error
  return cap

/-! ## What the kernel supports -/

/-- The two files, where they can be opened, and whether resctrl is mounted. -/
structure OsFiles where
  filesystems : Option (List Char)
  cpuinfo : Option (List Char)
  mounted : Bool

/-- A file that does not name the feature leaves the flag as it was. -/
def detectOsSupport (file : Option (List Char)) (str : String) (supported : Bool) : Bool :=
  match file with
  | none => false
  | some text => supported || (fgets 1024 text).any (strstr · str)

def getOsEventName (type : MonEvent) : Option String :=
  if type = monEventL3Occup then some "cqm_occup_llc"
  else if type = monEventLmemBw then some "cqm_mbm_local"
  else if type = monEventTmemBw then some "cqm_mbm_total"
  else none

def osEvent (os : OsFiles) (m : Monitor) : Monitor :=
  if m.type = perfEventLlcMiss ∨ m.type = perfEventIpc then { m with osSupport := true }
  else
    match getOsEventName m.type with
    | none => m
    | some str => { m with osSupport := detectOsSupport os.cpuinfo str m.osSupport }

/-- Set the support of the first remote bandwidth event. -/
def setRmemSupport (supported : Bool) : List Monitor → List Monitor
  | [] => []
  | m :: l =>
    if m.type = monEventRmemBw then { m with osSupport := supported } :: l
    else m :: setRmemSupport supported l

/-- Remote bandwidth is supported where local and total bandwidth are. -/
def discoverOsMonitoring (os : OsFiles) (mon : CapMon) : CapMon :=
  let events := mon.events.map (osEvent os)
  let supports := fun type => events.any fun m => m.type = type ∧ m.osSupport
  { mon with events :=
      setRmemSupport (supports monEventLmemBw && supports monEventTmemBw) events }

/-- The flag of `/proc/cpuinfo` that stands for a capability. -/
def CapItem.osFlag : CapItem → String
  | .mon _ => "cqm"
  | .l3ca _ => "cat_l3"
  | .l2ca _ => "cat_l2"
  | .mba _ => "mba"

/-- With resctrl in the kernel, L3 allocation is supported whatever `/proc/cpuinfo` says. -/
def osCapability (os : OsFiles) (resctrl : Bool) (c : Capability) : Capability :=
  let supported := detectOsSupport os.cpuinfo c.u.osFlag c.osSupport
  match c.u with
  | .mon m => ⟨supported, .mon (if resctrl then discoverOsMonitoring os m else m)⟩
  | .l3ca l => ⟨supported || resctrl, .l3ca l⟩
  | u => ⟨supported, u⟩

/-- The outcome, and the capabilities with what was found out about them. -/
def discoverOsCapabilities (i : Interface) (os : OsFiles) (cap : Cap) : Except Err Unit × Cap :=
  let resctrl := detectOsSupport os.filesystems "resctrl" false
  if i = .os ∧ resctrl = false then (.error .error, cap)
  else (if os.mounted then .ok () else .error .resource, cap.map (osCapability os resctrl))

end Pqos
