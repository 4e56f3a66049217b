import Pqos.Allocation

/-!
# Probing for the smallest mask

What masks a register takes is not enumerated. The library tries: in a class that no core of a
domain uses it writes masks of growing width, reads back what became of each, and in the end writes
the class back as it was.
-/

namespace Pqos

open Prog

/-- The masks that the mask registers take. A write of any other leaves the register as it is, and
fails or is dropped. -/
structure MaskRule where
  takes : Word → Bool
  takes_zero : takes 0#64 = false
  faults : Bool

section Writes

variable (p : Platform) (rule : MaskRule)

def maskWrite (lcore reg : Nat) (val : Word) : EStateM Err Msr Unit :=
  if rule.takes val then msrWrite p lcore reg val
  else do
    msrAccess p (.wr lcore reg val)
    failIf (rule.faults = true) .error

end Writes

/-! ## The setters, by what a write does -/

section Setters

variable (p : Platform) (write : Nat → Nat → Word → EStateM Err Msr Unit)

def l3caWriteBy (cdpOn : Bool) (core : Nat) (ca : L3ca) : EStateM Err Msr Unit :=
  if cdpOn then do
    write core (l3caReg true ca.classId) ca.u.dataMask
    write core ((l3caReg true ca.classId + 1) % 2 ^ 32) ca.u.codeMask
  else
    match ca.u with
    | .s _ _ => throw .error
    | .ways m => write core (l3caReg false ca.classId) m

def hwL3caSetBy (socket : Nat) (ca : List L3ca) : EStateM Err Msr Unit := do
  let count ← ofExcept p.l3caGetCosNum
  failIf (count < ca.length) .error
  let cdpOn ← ofExcept p.l3caCdpEnabled
  let core ← ofExcept (p.cpu.getOneCore socket)
  ca.forM (l3caWriteBy write cdpOn core)

def hwL2caSetBy (l2id : Nat) (ca : List L2ca) : EStateM Err Msr Unit := do
  let count ← ofExcept p.l2caGetCosNum
  failIf (∃ c ∈ ca, count ≤ c.classId) .param
  let core ← ofExcept (p.cpu.getOneByL2id l2id)
  ca.forM fun c => write core (l2caReg c.classId) (c.waysMask.setWidth 64)

end Setters

theorem hwL3caSetBy_msrWrite (p : Platform) : hwL3caSetBy p (msrWrite p) = hwL3caSet p := rfl

theorem hwL2caSetBy_msrWrite (p : Platform) : hwL2caSetBy p (msrWrite p) = hwL2caSet p := rfl

/-! ## The probe -/

/-- `(1 << ways) - 1`, an `int`, in 64 bits. The machine shifts by the low five bits of `ways`. -/
def probeMask (ways : Nat) : Word := ((1#32 <<< (ways % 32)) - 1#32).signExtend 64

/-- What a probe works with: a technology's capability, the list of its domains' ids, and its
classes. -/
structure CbmProbe (γ α : Type) where
  cap : CapItem → Option γ
  numWays : γ → Nat
  ids : List Nat
  technology : Nat
  set : Nat → List α → EStateM Err Msr Unit
  get : Nat → EStateM Err Msr (List α)
  classId : α → Nat
  entry : Nat → Word → α
  shows : Word → α → Bool

section Probe

variable (p : Platform) {γ α : Type} (P : CbmProbe γ α)

/-- The first of some ids with a class that no core uses. -/
def findFreeCos (technology : Nat) : List Nat → EStateM Err Msr (Nat × Nat)
  | [] => throw .resource
  | id :: l => do
    match ← attempt (getUnusedCos p id technology) with
    | .ok classId => return (id, classId)
    | .error .resource => findFreeCos technology l
    | .error e => throw e

/-- Try widths in turn. `ret` is the status so far; the output is set when a mask reads back. -/
def probeWays (id classId : Nat) (ret : Except Err (Option Nat)) :
    List Nat → EStateM Err Msr (Except Err (Option Nat))
  | [] => return ret
  | ways :: l => do
    match ← attempt (P.set id [P.entry classId (probeMask ways)]) with
    | .error e => probeWays id classId (.error e) l
    | .ok _ =>
      match ← attempt (P.get id) with
      | .error e => return .error e
      | .ok tab =>
        if ∃ ca ∈ tab, P.classId ca = classId ∧ P.shows (probeMask ways) ca = true then
          return .ok (some ways)
        else probeWays id classId (.ok none) l

/-- A class that cannot be written back is reported instead of what the probe found. -/
def probeClass (numWays id classId : Nat) : EStateM Err Msr (Option Nat) := do
  let config ← P.get id
  let ret ← probeWays P id classId (.ok none) (List.range' 1 numWays)
  (config.filter fun ca => P.classId ca = classId).forM fun ca => P.set id [ca]
  ofExcept ret

/-- The ids of the domains are taken to be their positions in the list. `none` is returned where
the output is left unset. -/
def getMinCbmBits : EStateM Err Msr (Option Nat) :=
  match p.capGetType P.cap with
  | .error _ => throw .resource
  | .ok c => do
    failIf (P.ids = []) .error
    let (id, classId) ← findFreeCos p P.technology (List.range P.ids.length)
    probeClass P (P.numWays c) id classId

end Probe

section Members

variable (p : Platform) (rule : MaskRule)

def L3ca.shows (mask : Word) (ca : L3ca) : Bool :=
  match ca.u with
  | .ways m => m == mask
  | .s d c => d == mask && c == mask

def l3Probe : CbmProbe CapL3ca L3ca where
  cap := CapItem.l3ca?
  numWays := CapL3ca.numWays
  ids := p.cpu.getSockets
  technology := 2
  set := hwL3caSetBy p (maskWrite p rule)
  get socket := hwL3caGet p socket 16
  classId := L3ca.classId
  entry classId mask := ⟨classId, .ways mask⟩
  shows := L3ca.shows

def l2Probe : CbmProbe CapL2ca L2ca where
  cap := CapItem.l2ca?
  numWays := CapL2ca.numWays
  ids := p.cpu.getL2ids
  technology := 4
  set := hwL2caSetBy p (maskWrite p rule)
  get l2id := hwL2caGet p l2id 16
  classId := L2ca.classId
  entry classId mask := ⟨classId, mask.setWidth 32⟩
  shows mask ca := ca.waysMask.setWidth 64 == mask

def hwL3caGetMinCbmBits : EStateM Err Msr (Option Nat) := getMinCbmBits p (l3Probe p rule)

def hwL2caGetMinCbmBits : EStateM Err Msr (Option Nat) := getMinCbmBits p (l2Probe p rule)

end Members

end Pqos
