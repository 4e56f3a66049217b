import Pqos.OsAllocation

/-!
# Resetting through either interface

A reset on the OS interface mounts the resctrl file system anew, with CDP or without, and makes the
directories of the classes again. The capabilities the library holds follow the mount: they are
part of the state here, for a reset may fail after it has changed them.
-/

namespace Pqos

open Prog

/-- The kernel's answers to what a reset asks of the resctrl file system as a whole. -/
structure RctlMount (κ : Type) where
  umount : EStateM Unit κ Unit
  mount : Bool → EStateM Unit κ Unit
  hasGroup : κ → Nat → Bool
  mkdir : Nat → EStateM Unit κ Unit

/-- What resets change: the registers, the kernel, and the capabilities the library holds. -/
structure LibState (κ : Type) where
  msr : Msr
  kernel : κ
  cap : Cap

section

variable {κ : Type} (p : Platform) (fs : Resctrl κ) (rctl : RctlMount κ)

/-- A program on the kernel, run beside the rest. -/
def onKernel {α : Type} (x : EStateM Err κ α) : EStateM Err (LibState κ) α :=
  zoom LibState.kernel (fun k s => { s with kernel := k }) x

/-- The platform with the capabilities as they are now. -/
def Platform.at (s : LibState κ) : Platform := { p with cap := s.cap }

/-- CDP is refused where the L3 capability is without it, and not where there is none. -/
def osInterfaceMount (cdp : Bool) : EStateM Err κ Unit := do
  failIf (cdp = true ∧ ∃ c ∈ (p.capGetType CapItem.l3ca?).toOption, c.cdp = false) .param
  mapError (fun _ => .error) (rctl.mount cdp)

/-- A group that is there is left as it is. -/
def osPrepGroup (i : Nat) : EStateM Err κ Unit := do
  let k ← get
  unless rctl.hasGroup k i do
    mapError (fun _ => .busy) (rctl.mkdir i)

def osAllocPrep : EStateM Err κ Unit := do
  let numGrps ← ofExcept p.getGrpsNum
  (List.range' 1 (numGrps - 1)).forM (osPrepGroup rctl)

/-- Whether a reset mounts with CDP. -/
def cdpMount (cfg : CdpConfig) (cdpCurrent : Bool) : Bool :=
  match cfg with
  | .requireCdpOn => true
  | .requireCdpAny => cdpCurrent
  | .requireCdpOff => false

/-- Once mounted, the capabilities follow the mount, and the groups are counted by them. -/
def osRemounted (prev next : Bool) : EStateM Err (LibState κ) Unit := do
  unless next = prev do
    modify fun s => { s with cap := capL3cdpChange prev next s.cap }
  let s ← get
  onKernel (osAllocPrep (p.at s) rctl)

def osAllocReset (cfg : CdpConfig) : EStateM Err (LibState κ) Unit := do
  let s ← get
  let p := p.at s
  let l3 := (p.capGetType CapItem.l3ca?).toOption
  let l2 := (p.capGetType CapItem.l2ca?).toOption
  let cdpCurrent := l3.any CapL3ca.cdpOn
  failIf (l2 = none ∧ l3 = none) .resource
  failIf (l3 = none ∧ cfg ≠ .requireCdpAny) .resource
  failIf (cfg = .requireCdpOn ∧ ∃ c ∈ l3, c.cdp = false) .param
  onKernel (osAllocResetAssoc p fs)
  -- the error is what `umount2` returned, which is none of the library's
  onKernel (mapError (fun _ => .error) rctl.umount)
  onKernel (osInterfaceMount p rctl (cdpMount cfg cdpCurrent))
  osRemounted p rctl cdpCurrent (cdpMount cfg cdpCurrent)

def pqosAllocReset (cfg : CdpConfig) : EStateM Err (LibState κ) Unit := do
  failIf (p.initDone = false) .init
  match p.interface with
  | .msr => do
    let s ← get
    let cap ← zoom LibState.msr (fun m s => { s with msr := m }) (hwAllocReset (p.at s) cfg)
    modify fun s => { s with cap := cap }
  | .os => osAllocReset p fs rctl cfg

/-- The states a run of resets goes through, its first one included. -/
def resetStates : List CdpConfig → LibState κ → List (LibState κ)
  | [], s => [s]
  | cfg :: calls, s => s :: resetStates calls (final ((pqosAllocReset p fs rctl cfg).run s))

end

end Pqos
