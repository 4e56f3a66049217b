import Pqos.Rdtset
import Pqos.Proofs.Contract

/-!
# Undoing a configuration that failed

When a configuration fails, the tool releases the cores of that one and of those before it, and a
configuration for tasks releases its own tasks. Nothing releases the tasks of an earlier
configuration for tasks: those stay in the class they were given.
-/

namespace Pqos

open Prog

variable {σ : Type} {p : Platform} {b : Backend σ}

/-! ## Calls of the library -/

/-- The library's state changed as `R` says, and no release was counted. -/
def LibStep (R : σ → σ → Prop) (u v : RdtState σ) : Prop :=
  R u.lib v.lib ∧ v.released = u.released

section Calls

variable {R : σ → σ → Prop} {u v : RdtState σ}

theorem LibStep.isFrame (hR : Frame R) : Frame (LibStep R) :=
  ⟨fun _ => ⟨hR.refl _, rfl⟩, fun h h' => ⟨hR.trans h.1 h'.1, h'.2.trans h.2⟩⟩

theorem LibStep.mono {R' : σ → σ → Prop} (h : LibStep R u v) (hR : ∀ {s t}, R s t → R' s t) :
    LibStep R' u v := ⟨hR h.1, h.2⟩

theorem libCall_keeps {α : Type} {x : EStateM Err σ α} (hx : Keeps R x) (f : Err → Errno) :
    Keeps (LibStep R) (libCall f x) :=
  Keeps.zoom (hx.mapError f) fun _ _ h => ⟨h, rfl⟩

theorem libCall_ok {α : Type} {x : EStateM Err σ α} {f : Err → Errno} {a : α} :
    (libCall f x).run u = .ok a v ↔ ∃ t, x.run u.lib = .ok a t ∧ v = { u with lib := t } := by
  unfold libCall
  rw [zoom_ok]
  simp only [mapError_ok]

section Setters

variable (hR : Frame R)
include hR

end Setters

end Calls

/-! ## Cores of a configuration -/

section Cores

variable {cfg : RdtConfig} {lcore id : Nat}

end Cores

/-! ## What setting a configuration does -/

section Set

variable {coreCos taskCos : σ → Nat → Nat} (hb : Associates coreCos taskCos p b)
  {tasks : List Nat} {cfg : RdtConfig} {u v : RdtState σ} {e : Errno}
include hb

end Set

/-! ## The run -/

section Run

variable {coreCos taskCos : σ → Nat → Nat} (hb : Associates coreCos taskCos p b)
include hb

/-- Validation sees to it that every core named is one of the machine's and in class 0. -/
theorem allocValidate_ok {config : List RdtConfig} {u v : RdtState σ}
    (h : (allocValidate p b config).run u = .ok () v) :
    LibStep (SameCos coreCos taskCos) u v ∧ ∀ cfg ∈ config, ∀ lcore,
      cfg.cpumask.getLsbD lcore = true → lcore ∈ p.cpu.lcores ∧ coreCos u.lib lcore = 0 := by
  have hframe := LibStep.isFrame (SameCos.isFrame coreCos taskCos)
  have hcpu : ∀ {cpu : Nat} {w w' : RdtState σ}, cpu < 1024 →
      (checkCpu p b cpu).run w = .ok () w' →
        LibStep (SameCos coreCos taskCos) w w' ∧ cpu ∈ p.cpu.lcores ∧ coreCos w.lib cpu = 0 := by
    intro cpu w w' hlt hrun
    unfold checkCpu at hrun
    simp only [bind_ok, failIf_ok] at hrun
    obtain ⟨_, _, ⟨hinfo, rfl⟩, cos, _, hget, hcos, rfl⟩ := hrun
    obtain ⟨t, hassoc, rfl⟩ := libCall_ok.1 hget
    unfold pqosAllocAssocGet checkInit at hassoc
    simp only [bind_ok, failIf_ok] at hassoc
    obtain ⟨_, _, ⟨-, rfl⟩, hassoc⟩ := hassoc
    obtain ⟨rfl, hsame⟩ := hb.assocGet hlt hassoc
    refine ⟨⟨hsame, rfl⟩, ?_, not_not.1 hcos⟩
    rw [CpuInfo.getCoreInfo_eq_none, not_not] at hinfo
    exact hinfo
  unfold allocValidate at h
  simp only [bind_ok, ofExcept_ok] at h
  obtain ⟨_, v, hcpus, _, _, ⟨-, rfl⟩, _, _, ⟨-, rfl⟩, _, _, ⟨-, rfl⟩, -, rfl⟩ := h
  refine forM_ok (fun done v => LibStep (SameCos coreCos taskCos) u v ∧ ∀ cfg ∈ done, ∀ lcore,
    cfg.cpumask.getLsbD lcore = true → lcore ∈ p.cpu.lcores ∧ coreCos u.lib lcore = 0) hcpus
      ⟨hframe.refl u, by simp⟩ ?_
  intro pre cfg post w w' _ hinv hcfg
  obtain ⟨hstep, hpre⟩ := hinv
  have hone := forM_ok (fun done v => LibStep (SameCos coreCos taskCos) u v ∧ ∀ lcore ∈ done,
    lcore ∈ p.cpu.lcores ∧ coreCos u.lib lcore = 0) hcfg ⟨hstep, by simp⟩ ?_
  · refine ⟨hone.1, fun c hc lcore hl => ?_⟩
    rcases List.mem_append.1 hc with hc | hc
    · exact hpre c hc lcore hl
    · rw [List.mem_singleton] at hc
      rw [hc] at hl
      refine hone.2 lcore (List.mem_filter.2 ⟨?_, hl⟩)
      exact List.mem_range.2 (BitVec.lt_of_getLsbD hl)
  · intro pre' cpu post' w₁ w₂ hl hinv' hrun
    obtain ⟨hstep', hpre'⟩ := hinv'
    have hmem : cpu ∈ (List.range 1024).filter (cfg.cpumask.getLsbD ·) := by simp [hl]
    obtain ⟨hsame, hin, hzero⟩ := hcpu (List.mem_range.1 (List.mem_filter.1 hmem).1) hrun
    refine ⟨hframe.trans hstep' hsame, fun lcore hlcore => ?_⟩
    rcases List.mem_append.1 hlcore with hlcore | hlcore
    · exact hpre' lcore hlcore
    · rw [List.mem_singleton] at hlcore
      rw [hlcore, ← hstep'.1.1]
      exact ⟨hin, hzero⟩

end Run

/-! ## Which tasks come back -/

/-- Two configurations with L3 masks, for the CPUs of the given sets. -/
def twoConfigs (mask mask' : BitVec 1024) : Rdtset where
  config := [⟨mask, ⟨0, .ways 0xf⟩, ⟨0, 0⟩, ⟨0, 0⟩, by decide⟩,
    ⟨mask', ⟨0, .ways 0xf0⟩, ⟨0, 0⟩, ⟨0, 0⟩, by decide⟩]
  pids := [7]
  pid := 7

def zeroMsr : Msr := ⟨fun _ => 0, []⟩

/-- A kernel whose CPUs 0 and 1 stay in class 0. It keeps the class of task 7, and the schemata
files as they are written. -/
structure TaskKernel where
  task : Nat
  schemata : Nat → List Char

namespace TaskKernel

def taskFiles : Resctrl TaskKernel where
  read classId file := do
    let k ← get
    return match file with
      | .cpus => if classId = 0 then ['3', '\n'] else []
      | .schemata => k.schemata classId
      | .tasks => if k.task = classId then ['7', '\n'] else []
  write classId file text :=
    match file with
    | .cpus => failIf (classId ≠ 0) ()
    | .schemata => modify fun k => { k with schemata := Function.update k.schemata classId text }
    | .tasks => do
      failIf (text ≠ Nat.toDigits 10 7 ++ ['\n']) ()
      modify fun k => { k with task := classId }
  taskExists _ task := task = 7

def cpuClass (_k : TaskKernel) (lcore : Nat) : Option Nat := if lcore < 2 then some 0 else none

def taskClass (k : TaskKernel) (task : Nat) : Nat := if task = 7 then k.task else 0

theorem ofText_get (classId : Nat) {lcore : Nat} (hl : lcore < 4096) (k : TaskKernel) :
    (CpuMask.ofText (if classId = 0 then ['3', '\n'] else [])).get lcore = true
      ↔ cpuClass k lcore = some classId := by
  unfold cpuClass
  by_cases hc : classId = 0
  · have hmask : CpuMask.ofText ['3', '\n'] = ⟨CpuMask.empty.tab.setIfInBounds 511 3⟩ := rfl
    rw [if_pos hc, hmask, CpuMask.get, CpuMask.item_eq hl, Vector.getElem?_setIfInBounds, hc]
    by_cases hbyte : lcore < 8
    · rw [if_pos (by omega), if_pos (by decide), Option.getD_some, Nat.mod_eq_of_lt hbyte]
      have hbit : ∀ i < 8, (3#8).getLsbD i = true
          ↔ (if i < 2 then some 0 else none) = some 0 := by decide
      exact hbit lcore hbyte
    · have hget := CpuMask.get_empty (k := lcore)
      rw [CpuMask.get, CpuMask.item_eq hl] at hget
      rw [if_neg (by omega), hget, if_neg (by omega)]
      simp
  · have hmask : CpuMask.ofText [] = CpuMask.empty := rfl
    rw [if_neg hc, hmask, CpuMask.get_empty]
    split_ifs <;> simp [Ne.symm hc]

theorem toDigits_seven {task : Nat}
    (h : Nat.toDigits 10 task ++ ['\n'] = Nat.toDigits 10 7 ++ ['\n']) : task = 7 := by
  have := congrArg (CText.ofDigits 10) (List.append_cancel_right h)
  rwa [CText.ofDigits_toDigits (by decide) (by decide),
    CText.ofDigits_toDigits (by decide) (by decide)] at this

theorem groupFiles : GroupFiles taskFiles cpuClass taskClass where
  cpus_lt {k lcore c} h := by
    unfold cpuClass at h
    split_ifs at h
    omega
  reads classId file k := ⟨rfl, rfl⟩
  schemata classId text k := ⟨rfl, rfl⟩
  cpus_read {classId k text k'} h lcore hl := by
    cases h
    exact ofText_get classId hl k
  cpus_write {classId k mask u k'} h := by
    obtain ⟨hc, rfl⟩ := failIf_ok.1 h
    refine ⟨fun lcore => ?_, rfl⟩
    rw [not_not.1 hc]
    unfold cpuClass
    split_ifs <;> simp
  tasks_write {classId k task u k'} h := by
    simp only [taskFiles, bind_ok, failIf_ok, not_not] at h
    obtain ⟨_, _, ⟨htext, rfl⟩, h⟩ := h
    cases h
    obtain rfl := toDigits_seven htext
    refine ⟨rfl, funext fun a => ?_⟩
    unfold taskClass
    rw [Function.update_apply]
    split_ifs <;> rfl
  refused {classId file text k u k'} h := by
    cases file
    · obtain ⟨-, -, rfl⟩ := failIf_error.1 h
      exact ⟨rfl, rfl⟩
    · cases h
    · simp only [taskFiles, bind_error, failIf_error] at h
      rcases h with ⟨-, -, rfl⟩ | ⟨_, _, -, h⟩
      · exact ⟨rfl, rfl⟩
      · cases h
  gone {k task} h := if_neg (of_decide_eq_false h)

def start : TaskKernel := ⟨0, fun _ => "L3:0=7ff\n".toList⟩

end TaskKernel

end Pqos
