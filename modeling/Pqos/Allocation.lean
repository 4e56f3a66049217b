import Pqos.Machine

/-!
# Allocation on the MSR interface

The class setters and getters of the three technologies, the association of cores with classes,
the search for a class no core uses, and the reset of everything. Register numbers and rates are
32-bit unsigned and wrap.
-/

namespace Pqos

open Prog

variable (p : Platform)

/-- The number of entries of a table of L3 classes, `PQOS_MAX_L3CA_COS`. -/
def pqosMaxL3caCos : Nat := 16

/-! ## Class definitions -/

/-- The first register of an L3 class. Under CDP it takes two: data, and code right after. -/
def l3caReg (cdpOn : Bool) (classId : Nat) : Nat :=
  if cdpOn then (classId * 2 + msrL3caMaskStart) % 2 ^ 32
  else (classId + msrL3caMaskStart) % 2 ^ 32

def l2caReg (classId : Nat) : Nat := (classId + msrL2caMaskStart) % 2 ^ 32

def mbaReg (classId : Nat) : Nat := (classId + msrMbaMaskStart) % 2 ^ 32

def L3Masks.dataMask : L3Masks → Word
  | ways m => m
  | s d _ => d

def L3Masks.codeMask : L3Masks → Word
  | ways m => m
  | s _ c => c

def l3caWriteCdp (core : Nat) (ca : L3ca) : EStateM Err Msr Unit := do
  msrWrite p core (l3caReg true ca.classId) ca.u.dataMask
  msrWrite p core ((l3caReg true ca.classId + 1) % 2 ^ 32) ca.u.codeMask

/-- Separate code and data masks are refused while CDP is off. -/
def l3caWriteNoCdp (core : Nat) (ca : L3ca) : EStateM Err Msr Unit :=
  match ca.u with
  | .s _ _ => throw .error
  | .ways m => msrWrite p core (l3caReg false ca.classId) m

def l3caWrite (cdpOn : Bool) (core : Nat) (ca : L3ca) : EStateM Err Msr Unit :=
  if cdpOn then l3caWriteCdp p core ca else l3caWriteNoCdp p core ca

def hwL3caSet (socket : Nat) (ca : List L3ca) : EStateM Err Msr Unit := do
  let count ← ofExcept p.l3caGetCosNum
  failIf (count < ca.length) .error
  let cdpOn ← ofExcept p.l3caCdpEnabled
  let core ← ofExcept (p.cpu.getOneCore socket)
  ca.forM (l3caWrite p cdpOn core)

def l3caRead (cdpOn : Bool) (core classId : Nat) : EStateM Err Msr L3ca :=
  if cdpOn then do
    let data ← msrRead p core (l3caReg true classId)
    let code ← msrRead p core ((l3caReg true classId + 1) % 2 ^ 32)
    return ⟨classId, .s data code⟩
  else do
    let mask ← msrRead p core (l3caReg false classId)
    return ⟨classId, .ways mask⟩

def hwL3caGet (socket maxNumCa : Nat) : EStateM Err Msr (List L3ca) := do
  let count ← ofExcept p.l3caGetCosNum
  let cdpOn ← ofExcept p.l3caCdpEnabled
  failIf (maxNumCa < count) .error
  let core ← ofExcept (p.cpu.getOneCore socket)
  (List.range count).mapM (l3caRead p cdpOn core)

def l2caWrite (core : Nat) (ca : L2ca) : EStateM Err Msr Unit :=
  msrWrite p core (l2caReg ca.classId) (ca.waysMask.setWidth 64)

def hwL2caSet (l2id : Nat) (ca : List L2ca) : EStateM Err Msr Unit := do
  let count ← ofExcept p.l2caGetCosNum
  failIf (∃ c ∈ ca, count ≤ c.classId) .param
  let core ← ofExcept (p.cpu.getOneByL2id l2id)
  ca.forM (l2caWrite p core)

def l2caRead (core classId : Nat) : EStateM Err Msr L2ca := do
  let val ← msrRead p core (l2caReg classId)
  return ⟨classId, val.setWidth 32⟩

def hwL2caGet (l2id maxNumCa : Nat) : EStateM Err Msr (List L2ca) := do
  let count ← ofExcept p.l2caGetCosNum
  failIf (maxNumCa < count) .param
  let core ← ofExcept (p.cpu.getOneByL2id l2id)
  (List.range count).mapM (l2caRead p core)

/-- The rate rounded to the nearest multiple of the step. -/
def mbaRound (step rate : Nat) : Nat := (rate + step / 2) % 2 ^ 32 / step * step % 2 ^ 32

/-- The delay that a rate asks for: what is left of 100, in unsigned arithmetic, but not above
the largest delay the hardware takes. -/
def mbaDelay (c : CapMba) (rate : Nat) : Nat :=
  min ((100 + 2 ^ 32 - mbaRound c.throttleStep rate) % 2 ^ 32) c.throttleMax

def mbaRateOf (val : Word) : Nat := (100#64 - val).toNat % 2 ^ 32

def mbaWrite (c : CapMba) (core : Nat) (requested : Mba) : EStateM Err Msr Unit :=
  msrWrite p core (mbaReg requested.classId) (BitVec.ofNat 64 (mbaDelay c requested.mbRate))

/-- Write an entry and, when the caller wants to see what the hardware made of it, read it back. -/
def mbaWriteActual (c : CapMba) (core : Nat) (requested : Mba) : EStateM Err Msr Mba := do
  mbaWrite p c core requested
  let val ← msrRead p core (mbaReg requested.classId)
  return { requested with mbRate := mbaRateOf val }

/-- The table of actual rates is `none` when the caller passes no place for it. -/
def hwMbaSet (socket : Nat) (requested : List Mba) (wantActual : Bool) :
    EStateM Err Msr (Option (List Mba)) := do
  let c ← ofExcept (p.capGetType CapItem.mba?)
  failIf (c.isLinear = false) .resource
  failIf (∃ r ∈ requested, c.numClasses ≤ r.classId) .param
  let core ← ofExcept (p.cpu.getOneCore socket)
  if wantActual then some <$> requested.mapM (mbaWriteActual p c core)
  else do
    requested.forM (mbaWrite p c core)
    return none

def mbaRead (core classId : Nat) : EStateM Err Msr Mba := do
  let val ← msrRead p core (mbaReg classId)
  return ⟨classId, mbaRateOf val⟩

def hwMbaGet (socket maxNumCos : Nat) : EStateM Err Msr (List Mba) := do
  let count ← ofExcept p.mbaGetCosNum
  failIf (maxNumCos < count) .error
  let core ← ofExcept (p.cpu.getOneCore socket)
  (List.range count).mapM (mbaRead p core)

/-! ## Associations -/

/-- The class in an association register: its high half. -/
def cosOf (val : Word) : Nat := (val >>> 32).toNat

/-- An association register with its class replaced. -/
def withCos (val : Word) (classId : Nat) : Word :=
  (val &&& ~~~0xffffffff00000000#64) ||| (BitVec.ofNat 64 classId <<< 32)

def cosAssocGet (lcore : Nat) : EStateM Err Msr Nat := do
  let val ← msrRead p lcore msrAssoc
  return cosOf val

def cosAssocSet (lcore classId : Nat) : EStateM Err Msr Unit := do
  let val ← msrRead p lcore msrAssoc
  msrWrite p lcore msrAssoc (withCos val classId)

/-- A technology the platform lacks has no classes. -/
def cosNumOrZero : Except Err Nat → Except Err Nat
  | .error .resource => .ok 0
  | r => r

/-- Bring the number of common classes `numCos`, zero before the first technology, down to `num`
if the technology is requested. -/
def lowerCos (req : Bool) (num : Except Err Nat) (numCos : Nat) : Except Err Nat :=
  if req then do
    let n ← cosNumOrZero num
    if n = 0 then .error .error
    else if numCos = 0 ∨ n < numCos then .ok n
    else .ok numCos
  else .ok numCos

/-- The highest class that every requested technology has. -/
def getHiCosId (technology : Nat) : Except Err Nat := do
  let n ← lowerCos (l3Req technology) p.l3caGetCosNum 0
  let n ← lowerCos (l2Req technology) p.l2caGetCosNum n
  let n ← lowerCos (mbaReq technology) p.mbaGetCosNum n
  return (n + 2 ^ 32 - 1) % 2 ^ 32

/-- The id by which a request looks for cores: the L2 cluster as soon as L2 is requested, the
socket otherwise. -/
def scopeId (technology : Nat) (c : CoreInfo) : Nat :=
  if l2Req technology then c.l2Id else c.socket

/-- The highest class from `hi` down to 1 that is not in `used`. -/
def findUnused (used : List Nat) : Nat → Option Nat
  | 0 => none
  | cos + 1 => if cos + 1 ∈ used then findUnused used cos else some (cos + 1)

def getUnusedCos (id technology : Nat) : EStateM Err Msr Nat := do
  let hi ← ofExcept (getHiCosId p technology)
  let used ← (p.cpu.getCoresPerTopologyObj (scopeId technology) id).mapM (cosAssocGet p)
  ofOption .resource (findUnused (used.filter (· ≤ hi)) hi)

def hwAllocAssocSet (lcore classId : Nat) : EStateM Err Msr Unit := do
  failIf (p.cpu.getCoreInfo lcore = none) .param
  let numL3 ← ofExcept (cosNumOrZero p.l3caGetCosNum)
  let numL2 ← ofExcept (cosNumOrZero p.l2caGetCosNum)
  failIf (numL3 ≤ classId ∧ numL2 ≤ classId) .param
  cosAssocSet p lcore classId

def hwAllocAssocGet (lcore : Nat) : EStateM Err Msr Nat := do
  failIf (p.cpu.getCoreInfo lcore = none) .param
  failIf ((p.capGetType CapItem.l3ca?).toOption = none
    ∧ (p.capGetType CapItem.l2ca?).toOption = none) .resource
  cosAssocGet p lcore

/-- The id all cores of the array share, as far as it has been walked. -/
def oneEntity (technology : Nat) : Option Nat → List Nat → Except Err (Option Nat)
  | id, [] => .ok id
  | id, core :: l =>
    match p.cpu.getCoreInfo core with
    | none => .error .param
    | some pi =>
      if id = none ∨ id = some (scopeId technology pi) then
        oneEntity technology (some (scopeId technology pi)) l
      else .error .param

def hwAllocAssign (technology : Nat) (coreArray : List Nat) : EStateM Err Msr Nat := do
  let id ← ofExcept (oneEntity p technology none coreArray)
  let classId ← getUnusedCos p (id.getD 0) technology
  coreArray.forM fun core => cosAssocSet p core classId
  return classId

def hwAllocRelease (coreArray : List Nat) : EStateM Err Msr Unit :=
  tryAll .error (fun core => cosAssocSet p core 0) coreArray

/-! ## Reset -/

def cdpBit (val : Word) : Bool := val.getLsbD 0

def cdpEnableOne (enable : Bool) (socket : Nat) : EStateM Err Msr Unit := do
  let core ← ofExcept (p.cpu.getOneCore socket)
  let reg ← msrRead p core msrL3QosCfg
  msrWrite p core msrL3QosCfg (if enable then reg ||| 1#64 else reg &&& ~~~1#64)

def cdpEnable (sockets : List Nat) (enable : Bool) : EStateM Err Msr Unit :=
  sockets.forM (cdpEnableOne p enable)

def allocCosReset (msrStart msrNum core : Nat) (msrVal : Word) : EStateM Err Msr Unit :=
  tryAll .error (fun i => msrWrite p core ((msrStart + i) % 2 ^ 32) msrVal) (List.range msrNum)

def allocAssocReset : EStateM Err Msr Unit :=
  tryAll .error (fun c => cosAssocSet p c.lcore 0) p.cpu.cores

/-- The mask of all ways. -/
def fullMask (numWays : Nat) : Word := (1#64 <<< numWays) - 1#64

def l3caReset (maxL3Cos : Nat) (c : CapL3ca) (socket : Nat) : EStateM Err Msr Unit := do
  let core ← ofExcept (p.cpu.getOneCore socket)
  allocCosReset p msrL3caMaskStart maxL3Cos core (fullMask c.numWays)

def l2caReset (c : CapL2ca) (l2id : Nat) : EStateM Err Msr Unit := do
  let core ← ofExcept (p.cpu.getOneByL2id l2id)
  allocCosReset p msrL2caMaskStart c.numClasses core (fullMask c.numWays)

def mbaReset (c : CapMba) (socket : Nat) : EStateM Err Msr Unit := do
  let core ← ofExcept (p.cpu.getOneCore socket)
  allocCosReset p msrMbaMaskStart c.numClasses core 0#64

/-- The number of mask registers behind the L3 classes. -/
def CapL3ca.maxL3Cos (c : CapL3ca) : Nat :=
  if c.cdp && c.cdpOn then c.numClasses * 2 % 2 ^ 32 else c.numClasses

/-- Switch CDP on or off where the request asks for a change, and return the capabilities as they
are then. -/
def cdpSwitch (cfg : CdpConfig) (c : CapL3ca) : EStateM Err Msr Cap :=
  if cfg = .requireCdpOn ∧ c.cdpOn = false then do
    cdpEnable p p.cpu.getSockets true
    return capL3cdpChange c.cdpOn true p.cap
  else if cfg = .requireCdpOff ∧ c.cdpOn = true ∧ c.cdp = true then do
    cdpEnable p p.cpu.getSockets false
    return capL3cdpChange c.cdpOn false p.cap
  else return p.cap

/-- Reset every class of every technology, then every association, then CDP. -/
def hwAllocReset (cfg : CdpConfig) : EStateM Err Msr Cap := do
  let l3 := (p.capGetType CapItem.l3ca?).toOption
  let l2 := (p.capGetType CapItem.l2ca?).toOption
  let mba := (p.capGetType CapItem.mba?).toOption
  failIf (l2 = none ∧ l3 = none ∧ mba = none) .resource
  failIf (l3 = none ∧ cfg ≠ .requireCdpAny) .resource
  failIf (cfg = .requireCdpOn ∧ ∃ c ∈ l3, c.cdp = false) .param
  l3.forM fun c => p.cpu.getSockets.forM (l3caReset p c.maxL3Cos c)
  l2.forM fun c => p.cpu.getL2ids.forM (l2caReset p c)
  mba.forM fun c => p.cpu.getSockets.forM (mbaReset p c)
  allocAssocReset p
  match l3 with
  | some c => cdpSwitch p cfg c
  | none => return p.cap

end Pqos
