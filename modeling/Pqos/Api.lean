import Pqos.Allocation

/-!
# The library's interface

A call checks its arguments, then that the library is initialised, and hands over to the back end
of the interface in use. Tasks have classes on the OS interface only.
-/

namespace Pqos

open Prog

/-- What the library calls in a back end that keeps its state in `σ`. -/
structure Backend (σ : Type) where
  initDone : Bool
  interface : Interface
  l3caSet : Nat → List L3ca → EStateM Err σ Unit
  l3caGet : Nat → Nat → EStateM Err σ (List L3ca)
  l2caSet : Nat → List L2ca → EStateM Err σ Unit
  l2caGet : Nat → Nat → EStateM Err σ (List L2ca)
  mbaSet : Nat → List Mba → Bool → EStateM Err σ (Option (List Mba))
  mbaGet : Nat → Nat → EStateM Err σ (List Mba)
  allocAssocSet : Nat → Nat → EStateM Err σ Unit
  allocAssocGet : Nat → EStateM Err σ Nat
  allocAssign : Nat → List Nat → EStateM Err σ Nat
  allocRelease : List Nat → EStateM Err σ Unit
  allocAssignPid : Nat → List Nat → EStateM Err σ Nat
  allocReleasePid : List Nat → EStateM Err σ Unit

/-- The MSR back end, which knows nothing of tasks. -/
def hwBackend (p : Platform) : Backend Msr where
  initDone := p.initDone
  interface := .msr
  l3caSet := hwL3caSet p
  l3caGet := hwL3caGet p
  l2caSet := hwL2caSet p
  l2caGet := hwL2caGet p
  mbaSet := hwMbaSet p
  mbaGet := hwMbaGet p
  allocAssocSet := hwAllocAssocSet p
  allocAssocGet := hwAllocAssocGet p
  allocAssign := hwAllocAssign p
  allocRelease := hwAllocRelease p
  allocAssignPid := fun _ _ => throw .error
  allocReleasePid := fun _ => throw .error

/-- Shift bits out at the right as long as they are `b`, at most `n` of them. -/
def shiftOut (b : Bool) : Nat → Word → Word
  | 0, m => m
  | n + 1, m => if m.getLsbD 0 = b then shiftOut b n (m >>> 1) else m

/-- A zero mask is not contiguous. No loop makes more than 64 shifts: after those a mask is 0, and
the first loop stops at the one bit it knows to be set. -/
def isContiguous (bitmask : Word) : Bool :=
  if bitmask = 0#64 then false
  else shiftOut true 64 (shiftOut false 64 bitmask) = 0#64

def L3Masks.isContiguous : L3Masks → Bool
  | ways m => Pqos.isContiguous m
  | s d c => Pqos.isContiguous d && Pqos.isContiguous c

variable {σ : Type} (b : Backend σ)

def checkInit : EStateM Err σ Unit := failIf (b.initDone = false) .init

def pqosL3caSet (socket : Nat) (ca : List L3ca) : EStateM Err σ Unit := do
  failIf (ca = []) .param
  checkInit b
  failIf (∃ c ∈ ca, c.u.isContiguous = false) .param
  b.l3caSet socket ca

def pqosL3caGet (socket maxNumCa : Nat) : EStateM Err σ (List L3ca) := do
  failIf (maxNumCa = 0) .param
  checkInit b
  b.l3caGet socket maxNumCa

def pqosL2caSet (l2id : Nat) (ca : List L2ca) : EStateM Err σ Unit := do
  failIf (ca = []) .param
  checkInit b
  failIf (∃ c ∈ ca, isContiguous (c.waysMask.setWidth 64) = false) .param
  b.l2caSet l2id ca

def pqosMbaSet (socket : Nat) (requested : List Mba) (wantActual : Bool) :
    EStateM Err σ (Option (List Mba)) := do
  failIf (requested = []) .param
  failIf (∃ r ∈ requested, r.mbRate = 0 ∨ 100 < r.mbRate) .param
  checkInit b
  b.mbaSet socket requested wantActual

def pqosAllocAssocGet (lcore : Nat) : EStateM Err σ Nat := do
  checkInit b
  b.allocAssocGet lcore

def pqosAllocAssign (technology : Nat) (coreArray : List Nat) : EStateM Err σ Nat := do
  failIf (coreArray = []
    ∨ ¬ (l2Req technology ∨ l3Req technology ∨ mbaReq technology)) .param
  checkInit b
  b.allocAssign technology coreArray

def pqosAllocRelease (coreArray : List Nat) : EStateM Err σ Unit := do
  failIf (coreArray = []) .param
  checkInit b
  b.allocRelease coreArray

def pqosAllocAssignPid (technology : Nat) (taskArray : List Nat) : EStateM Err σ Nat := do
  failIf (taskArray = []) .param
  checkInit b
  failIf (b.interface ≠ .os) .error
  b.allocAssignPid technology taskArray

def pqosAllocReleasePid (taskArray : List Nat) : EStateM Err σ Unit := do
  failIf (taskArray = []) .param
  checkInit b
  failIf (b.interface ≠ .os) .error
  b.allocReleasePid taskArray

end Pqos
