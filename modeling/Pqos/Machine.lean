import Pqos.Lib.Prog
import Pqos.Utils
import Mathlib.Logic.Function.Basic

/-!
# The registers of the machine

Which cores see one register is the hardware's affair and shows in its number: the L3 and MBA
class registers and the CDP switch are one per socket, the L2 class registers one per L2 cluster,
and the rest, the association register among them, one per logical core. An access is recorded
whether it fails or not, and a failed write changes no register.
-/

namespace Pqos

open Prog

inductive Loc
  | core (lcore reg : Nat)
  | cluster (l2Id reg : Nat)
  | socket (socket reg : Nat)
deriving DecidableEq, Repr

structure Msr where
  mem : Loc → Word
  trace : List Access

def msrAssoc : Nat := 0xC8F
def msrL3caMaskStart : Nat := 0xC90
def msrL3caMaskEnd : Nat := 0xD0F
def msrL2caMaskStart : Nat := 0xD10
def msrMbaMaskStart : Nat := 0xD50
def msrL3QosCfg : Nat := 0xC81

/-- The register that `lcore` reaches under the number `reg`. -/
def CpuInfo.loc (cpu : CpuInfo) (lcore reg : Nat) : Loc :=
  match cpu.getCoreInfo lcore with
  | none => .core lcore reg
  | some c =>
    if reg = msrL3QosCfg then .socket c.socket reg
    else if reg < msrL3caMaskStart then .core lcore reg
    else if reg ≤ msrL3caMaskEnd then .socket c.socket reg
    else if reg < msrMbaMaskStart then .cluster c.l2Id reg
    else .socket c.socket reg

/-- One more than the largest core id: the size of the table of MSR driver files. -/
def CpuInfo.maxcores (cpu : CpuInfo) : Nat := cpu.lcores.foldr max 0 + 1

namespace Msr

def read (s : Msr) (cpu : CpuInfo) (lcore reg : Nat) : Word := s.mem (cpu.loc lcore reg)

def write (s : Msr) (l : Loc) (val : Word) : Msr := { s with mem := Function.update s.mem l val }

def log (s : Msr) (a : Access) : Msr := { s with trace := a :: s.trace }

@[simp] theorem write_mem (s : Msr) (l : Loc) (val : Word) :
    (s.write l val).mem = Function.update s.mem l val := rfl
@[simp] theorem write_trace (s : Msr) (l : Loc) (val : Word) : (s.write l val).trace = s.trace :=
  rfl
@[simp] theorem log_mem (s : Msr) (a : Access) : (s.log a).mem = s.mem := rfl
@[simp] theorem log_trace (s : Msr) (a : Access) : (s.log a).trace = a :: s.trace := rfl

end Msr

variable (p : Platform)

/-- Make the access, which the machine may refuse. Every caller turns whatever error the driver
returns into `PQOS_RETVAL_ERROR`. -/
def msrAccess (a : Access) : EStateM Err Msr Unit := do
  failIf (p.cpu.maxcores ≤ a.lcore) .error
  let s ← get
  set (s.log a)
  failIf (p.fails s.trace a = true) .error

def msrRead (lcore reg : Nat) : EStateM Err Msr Word := do
  msrAccess p (.rd lcore reg)
  return (← get).read p.cpu lcore reg

def msrWrite (lcore reg : Nat) (val : Word) : EStateM Err Msr Unit := do
  msrAccess p (.wr lcore reg val)
  modify fun s => s.write (p.cpu.loc lcore reg) val

/-- No access through a core of the topology fails. -/
def Platform.Reliable : Prop := ∀ h a, a.lcore ∈ p.cpu.lcores → p.fails h a = false

/-! ## Which registers cores share -/

section Loc

variable {cpu : CpuInfo} {c : CoreInfo} {reg : Nat} (hc : c ∈ cpu.cores)
include hc

theorem CpuInfo.loc_socket (h : msrL3caMaskStart ≤ reg ∧ reg ≤ msrL3caMaskEnd
      ∨ msrMbaMaskStart ≤ reg ∨ reg = msrL3QosCfg) :
    cpu.loc c.lcore reg = .socket c.socket reg := by
  simp only [CpuInfo.loc, CpuInfo.getCoreInfo_of_mem hc]
  split_ifs <;> simp only [msrL3caMaskStart, msrL3caMaskEnd, msrMbaMaskStart, msrL3QosCfg] at *
  all_goals omega

theorem CpuInfo.loc_cluster (h : msrL2caMaskStart ≤ reg) (h' : reg < msrMbaMaskStart) :
    cpu.loc c.lcore reg = .cluster c.l2Id reg := by
  simp only [CpuInfo.loc, CpuInfo.getCoreInfo_of_mem hc]
  split_ifs <;> simp only [msrL2caMaskStart, msrL3caMaskStart, msrL3caMaskEnd, msrMbaMaskStart,
    msrL3QosCfg] at *
  all_goals omega

omit hc in
theorem CpuInfo.loc_assoc (lcore : Nat) : cpu.loc lcore msrAssoc = .core lcore msrAssoc := by
  unfold CpuInfo.loc
  split
  · rfl
  · simp [msrAssoc, msrL3QosCfg, msrL3caMaskStart]

end Loc

theorem CpuInfo.lt_maxcores {cpu : CpuInfo} {lcore : Nat} (h : lcore ∈ cpu.lcores) :
    lcore < cpu.maxcores := by
  have key : ∀ l : List Nat, lcore ∈ l → lcore ≤ l.foldr max 0 := by
    intro l hl
    induction l with
    | nil => cases hl
    | cons a l ih =>
      rw [List.foldr_cons]
      rcases List.mem_cons.1 hl with rfl | hl
      · exact Nat.le_max_left _ _
      · exact Nat.le_trans (ih hl) (Nat.le_max_right _ _)
  exact Nat.lt_succ_of_le (key _ h)

/-! ## What an access does -/

section Access

variable {p} {a : Access} {lcore reg : Nat} {val v : Word} {s t : Msr} {e : Err} {u : Unit}

theorem msrAccess_ok (h : (msrAccess p a).run s = .ok u t) : t = s.log a := by
  unfold msrAccess at h
  simp only [bind_ok, failIf_ok] at h
  obtain ⟨_, _, ⟨-, rfl⟩, s', _, hs, _, _, ht, -, rfl⟩ := h
  cases hs
  cases ht
  rfl

theorem msrAccess_error (h : (msrAccess p a).run s = .error e t) : t.mem = s.mem := by
  unfold msrAccess at h
  simp only [bind_error, failIf_error, failIf_ok] at h
  rcases h with ⟨-, -, rfl⟩ | ⟨_, _, ⟨-, rfl⟩, h | ⟨s', _, hs, h | ⟨_, _, ht, -, -, rfl⟩⟩⟩
  · rfl
  · cases h
  · cases h
  · cases hs
    cases ht
    rfl

theorem msrAccess_run (hp : p.Reliable) (ha : a.lcore ∈ p.cpu.lcores) :
    (msrAccess p a).run s = .ok () (s.log a) := by
  have h1 : ¬ p.cpu.maxcores ≤ a.lcore := Nat.not_le_of_lt (CpuInfo.lt_maxcores ha)
  have h2 : ¬ p.fails s.trace a = true := by simp [hp s.trace a ha]
  unfold msrAccess
  rw [bind_of_ok (a := ()) (failIf_ok.2 ⟨h1, rfl⟩), get_bind, set_bind]
  exact failIf_ok.2 ⟨h2, rfl⟩

theorem msrRead_ok (h : (msrRead p lcore reg).run s = .ok v t) :
    v = s.read p.cpu lcore reg ∧ t = s.log (.rd lcore reg) := by
  unfold msrRead at h
  simp only [bind_ok] at h
  obtain ⟨_, t', ha, s', _, hs, hv⟩ := h
  obtain rfl := msrAccess_ok ha
  cases hs
  cases hv
  exact ⟨rfl, rfl⟩

theorem msrRead_error (h : (msrRead p lcore reg).run s = .error e t) : t.mem = s.mem := by
  unfold msrRead at h
  simp only [bind_error] at h
  rcases h with h | ⟨_, _, -, h | ⟨_, _, -, h⟩⟩
  · exact msrAccess_error h
  · cases h
  · cases h

theorem msrRead_run (hp : p.Reliable) (hl : lcore ∈ p.cpu.lcores) :
    (msrRead p lcore reg).run s = .ok (s.read p.cpu lcore reg) (s.log (.rd lcore reg)) := by
  unfold msrRead
  rw [bind_of_ok (msrAccess_run (a := .rd lcore reg) hp hl)]
  rfl

theorem msrWrite_ok (h : (msrWrite p lcore reg val).run s = .ok u t) :
    t = (s.log (.wr lcore reg val)).write (p.cpu.loc lcore reg) val := by
  unfold msrWrite at h
  simp only [bind_ok] at h
  obtain ⟨_, t', ha, ht⟩ := h
  obtain rfl := msrAccess_ok ha
  cases ht
  rfl

theorem msrWrite_error (h : (msrWrite p lcore reg val).run s = .error e t) : t.mem = s.mem := by
  unfold msrWrite at h
  simp only [bind_error] at h
  rcases h with h | ⟨_, _, -, h⟩
  · exact msrAccess_error h
  · cases h

theorem msrWrite_run (hp : p.Reliable) (hl : lcore ∈ p.cpu.lcores) :
    (msrWrite p lcore reg val).run s
      = .ok () ((s.log (.wr lcore reg val)).write (p.cpu.loc lcore reg) val) := by
  unfold msrWrite
  rw [bind_of_ok (msrAccess_run (a := .wr lcore reg val) hp hl)]
  rfl

end Access

/-! ## A small machine -/

/-- One socket with two cores, each an L2 cluster of its own, on which no access fails. -/
def smallPlatform (cap : Cap) : Platform where
  initDone := true
  interface := .msr
  cap := cap
  cpu := ⟨[⟨0, 0, 0, 0⟩, ⟨1, 0, 0, 1⟩], by decide, by decide⟩
  fails _ _ := false

theorem smallPlatform_reliable (cap : Cap) : (smallPlatform cap).Reliable := fun _ _ _ => rfl

end Pqos
