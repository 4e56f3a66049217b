import Pqos.OsAllocation
import Pqos.Proofs.Assign
import Pqos.Proofs.Banks
import Pqos.Proofs.Cpumask
import Pqos.Proofs.RoundTrip

/-!
# What a back end does to associations

A back end's calls as they are seen from the class of each core and of each task: the setters leave
all of them alone, an assignment changes those it is given and no other, failed or not, and a
release that succeeds takes its cores or tasks back to class 0. Both back ends are of this kind, the
OS one in a kernel whose files mean what the library takes them to mean.
-/

namespace Pqos

open Prog

section Contract

variable {σ γ δ : Type}

/-- No core and no task changed its class. -/
def SameCos (coreCos : σ → γ) (taskCos : σ → δ) (s t : σ) : Prop :=
  coreCos t = coreCos s ∧ taskCos t = taskCos s

theorem SameCos.isFrame (coreCos : σ → γ) (taskCos : σ → δ) : Frame (SameCos coreCos taskCos) :=
  (Frame.eq _).and (Frame.eq _)

variable (coreCos taskCos : σ → Nat → Nat)

/-- No core but those of `l`, and no task, changed its class. -/
def CoresOnly (l : List Nat) (s t : σ) : Prop :=
  (∀ k ∉ l, coreCos t k = coreCos s k) ∧ taskCos t = taskCos s

/-- No task but those of `l`, and no core, changed its class. -/
def TasksOnly (l : List Nat) (s t : σ) : Prop :=
  coreCos t = coreCos s ∧ ∀ k ∉ l, taskCos t k = taskCos s k

theorem CoresOnly.isFrame (l : List Nat) : Frame (CoresOnly coreCos taskCos l) :=
  (Frame.all fun _ => Frame.all fun _ => Frame.eq _).and (Frame.eq _)

theorem TasksOnly.isFrame (l : List Nat) : Frame (TasksOnly coreCos taskCos l) :=
  (Frame.eq _).and (Frame.all fun _ => Frame.all fun _ => Frame.eq _)

variable {coreCos taskCos} in
theorem SameCos.coresOnly {s t : σ} (h : SameCos coreCos taskCos s t) (l : List Nat) :
    CoresOnly coreCos taskCos l s t := ⟨fun _ _ => by rw [h.1], h.2⟩

/-- Every id is one that a CPU set can hold. -/
def InSet (l : List Nat) : Prop := ∀ k ∈ l, k < 1024

structure Associates (p : Platform) (b : Backend σ) : Prop where
  l3caSet : ∀ socket ca, (∀ e ∈ ca, ∃ c, p.capGetType CapItem.l3ca? = .ok c
    ∧ e.classId < c.numClasses) → Keeps (SameCos coreCos taskCos) (b.l3caSet socket ca)
  l2caSet : ∀ l2id ca, Keeps (SameCos coreCos taskCos) (b.l2caSet l2id ca)
  mbaSet : ∀ socket r want, Keeps (SameCos coreCos taskCos) (b.mbaSet socket r want)
  assocGet : ∀ {lcore c s t}, lcore < 1024 → (b.allocAssocGet lcore).run s = .ok c t →
    c = coreCos s lcore ∧ SameCos coreCos taskCos s t
  assign : ∀ technology l, InSet l →
    Keeps (CoresOnly coreCos taskCos l) (b.allocAssign technology l)
  release : ∀ {l s t}, InSet l → (b.allocRelease l).run s = .ok () t →
    (∀ k ∈ l, coreCos t k = 0) ∧ CoresOnly coreCos taskCos l s t
  assignPid : ∀ technology l, Keeps (TasksOnly coreCos taskCos l) (b.allocAssignPid technology l)
  assignPid_ok : ∀ {technology l c s t}, (b.allocAssignPid technology l).run s = .ok c t →
    ∀ k ∈ l, taskCos t k ≠ 0
  releasePid : ∀ {l s t}, (b.allocReleasePid l).run s = .ok () t →
    (∀ k ∈ l, taskCos t k = 0) ∧ TasksOnly coreCos taskCos l s t

end Contract

/-! ## The MSR back end -/

section Hw

variable {p : Platform}

/-- The machine has no tasks to speak of. -/
abbrev noTasks (_s : Msr) (_task : Nat) : Nat := 0

theorem Confined.same {W : Nat → Nat → Prop} {s t : Msr} (h : Confined p W s t)
    (hW : ∀ lcore reg, W lcore reg → ∀ k, Loc.core k msrAssoc ≠ p.cpu.loc lcore reg) :
    SameCos Msr.cos noTasks s t := by
  refine ⟨funext fun k => ?_, rfl⟩
  rw [Msr.cos, Msr.assoc, h.frame _ fun lcore reg hw => hW lcore reg hw k]
  rfl

theorem l3Own_ne_assoc (hfit : p.FitsBanks) {socket lcore reg : Nat}
    (h : L3Own p socket lcore reg) (k : Nat) : Loc.core k msrAssoc ≠ p.cpu.loc lcore reg := by
  obtain ⟨⟨a, ha, rfl, -⟩, c, hc, j, hj, hreg⟩ := h
  have hbank : msrL3caMaskStart ≤ reg ∧ reg ≤ msrL3caMaskEnd := by
    rcases hreg with hreg | ⟨hon, hreg⟩
    · exact hreg ▸ l3caReg_bank hfit hc hj
    · exact hreg ▸ codeReg_bank hfit hc hj hon
  rw [CpuInfo.loc_socket ha (Or.inl hbank)]
  simp

theorem l2Own_ne_assoc (hfit : p.FitsBanks) {l2id lcore reg : Nat}
    (h : L2Own p l2id lcore reg) (k : Nat) : Loc.core k msrAssoc ≠ p.cpu.loc lcore reg := by
  obtain ⟨⟨a, ha, rfl, -⟩, c, hc, j, hj, hreg⟩ := h
  have hcount := hfit.l2 c hc
  simp only [l2caReg, msrMbaMaskStart, msrL2caMaskStart] at hcount hreg
  rw [CpuInfo.loc_cluster ha (by simp only [msrL2caMaskStart]; omega)
    (by simp only [msrMbaMaskStart]; omega)]
  simp

theorem mbaOwn_ne_assoc (hfit : p.FitsBanks) {socket lcore reg : Nat}
    (h : MbaOwn p socket lcore reg) (k : Nat) : Loc.core k msrAssoc ≠ p.cpu.loc lcore reg := by
  obtain ⟨⟨a, ha, rfl, -⟩, c, hc, j, hj, hreg⟩ := h
  have hcount := hfit.mba c hc
  simp only [mbaReg, msrMbaMaskStart] at hreg
  have hbank : msrMbaMaskStart ≤ reg := by
    simp only [msrMbaMaskStart]
    omega
  rw [CpuInfo.loc_socket ha (Or.inr (Or.inl hbank))]
  simp

theorem msrRead_same {lcore reg : Nat} : Keeps (SameCos Msr.cos noTasks) (msrRead p lcore reg) := by
  intro s
  rcases h : (msrRead p lcore reg).run s with ⟨v, t⟩ | ⟨e, t⟩
  · rw [final_ok, (msrRead_ok h).2]
    exact ⟨rfl, rfl⟩
  · refine ⟨funext fun k => ?_, rfl⟩
    rw [final_error, Msr.cos, Msr.assoc, msrRead_error h]
    rfl

theorem cosAssocGet_same (lcore : Nat) :
    Keeps (SameCos Msr.cos noTasks) (cosAssocGet p lcore) :=
  Keeps.bind (SameCos.isFrame _ _) msrRead_same fun _ => Keeps.pure (SameCos.isFrame _ _) _

theorem cosAssocSet_coresOnly {l : List Nat} {lcore : Nat} (h : lcore ∈ l) (c : Nat) :
    Keeps (CoresOnly Msr.cos noTasks l) (cosAssocSet p lcore c) := by
  intro s
  refine ⟨fun k hk => ?_, rfl⟩
  have hne : (Loc.core k msrAssoc) ≠ .core lcore msrAssoc := by
    intro he
    cases he
    exact hk h
  rcases hrun : (cosAssocSet p lcore c).run s with ⟨u, t⟩ | ⟨e, t⟩
  · rw [final_ok, Msr.cos, Msr.assoc, cosAssocSet_ok hrun, Function.update_of_ne hne]
    rfl
  · rw [final_error, Msr.cos, Msr.assoc, cosAssocSet_error hrun]
    rfl

theorem hwAllocAssign_coresOnly (technology : Nat) (l : List Nat) :
    Keeps (CoresOnly Msr.cos noTasks l) (hwAllocAssign p technology l) := by
  have hframe := CoresOnly.isFrame Msr.cos noTasks l
  have hunused : ∀ id, Keeps (CoresOnly Msr.cos noTasks l) (getUnusedCos p id technology) := by
    intro id
    refine Keeps.bind hframe (Keeps.ofExcept hframe _) fun hi => ?_
    refine Keeps.bind hframe (Keeps.mapM hframe fun k _ => ?_) fun used => Keeps.ofOption hframe _ _
    exact (cosAssocGet_same k).mono fun h => h.coresOnly l
  refine Keeps.bind hframe (Keeps.ofExcept hframe _) fun id => ?_
  refine Keeps.bind hframe (hunused _) fun c => ?_
  exact Keeps.bind hframe (Keeps.forM hframe fun k hk => cosAssocSet_coresOnly hk c) fun _ =>
    Keeps.pure hframe _

/-- The MSR back end, whose class registers are in their banks. -/
theorem hwBackend_associates (hfit : p.FitsBanks) :
    Associates Msr.cos noTasks p (hwBackend p) where
  l3caSet socket ca hids := by
    refine (hwL3caSet_confined ?_).mono fun h => h.same fun _ _ => l3Own_ne_assoc hfit
    intro c hc hlen hsock e he
    have hmem : e ∈ ca := by
      unfold l3Reached at he
      split_ifs at he
      · exact he
      · exact (List.takeWhile_prefix _).subset he
    obtain ⟨c', hc', hlt⟩ := hids e hmem
    rw [hc] at hc'
    cases hc'
    exact Nat.lt_of_le_of_lt (Nat.mod_le _ _) hlt
  l2caSet l2id ca := (hwL2caSet_confined l2id ca).mono fun h => h.same fun _ _ =>
    l2Own_ne_assoc hfit
  mbaSet socket r want :=
    (hwMbaSet_confined socket r want).mono fun h => h.same fun _ _ => mbaOwn_ne_assoc hfit
  assocGet {lcore c s t} _ h := by
    have hsame : Keeps (SameCos Msr.cos noTasks) (hwAllocAssocGet p lcore) :=
      Keeps.bind (SameCos.isFrame _ _) (Keeps.failIf (SameCos.isFrame _ _) _ _) fun _ =>
        Keeps.bind (SameCos.isFrame _ _) (Keeps.failIf (SameCos.isFrame _ _) _ _) fun _ =>
          cosAssocGet_same lcore
    refine ⟨?_, hsame.of_ok h⟩
    change (hwAllocAssocGet p lcore).run s = .ok c t at h
    unfold hwAllocAssocGet at h
    simp only [bind_ok, failIf_ok] at h
    obtain ⟨_, _, ⟨-, rfl⟩, _, _, ⟨-, rfl⟩, h⟩ := h
    exact (cosAssocGet_ok h).1
  assign technology l _ := hwAllocAssign_coresOnly technology l
  release {l s t} _ h := by
    have hmoved := hwAllocRelease_ok h
    exact ⟨fun k hk => hmoved.cos (by decide) hk, fun k hk => hmoved.cos_other hk, rfl⟩
  assignPid technology l := Keeps.throw (TasksOnly.isFrame _ _ l) _
  assignPid_ok h := by cases h
  releasePid h := by cases h

end Hw

/-! ## The OS back end -/

section Os

variable {κ : Type} {p : Platform} {fs : Resctrl κ}

/-- What the files of the classes mean: which class each CPU is in, none for one that is not online,
and each task. A class's `cpus` file spells the mask of its CPUs. Writing a mask to it takes the
CPUs in it to the class and those the class loses to class 0, and a write to its `tasks` file takes
the task there; what is refused changes nothing, nor does any other access. -/
structure GroupFiles (fs : Resctrl κ) (cpuClass : κ → Nat → Option Nat)
    (taskClass : κ → Nat → Nat) :
    Prop where
  cpus_lt : ∀ {k lcore c}, cpuClass k lcore = some c → lcore < 4096
  reads : ∀ classId file, Keeps (SameCos cpuClass taskClass) (fs.read classId file)
  schemata : ∀ classId text, Keeps (SameCos cpuClass taskClass) (fs.write classId .schemata text)
  cpus_read : ∀ {classId k text k'}, (fs.read classId .cpus).run k = .ok text k' →
    ∀ lcore < 4096, (CpuMask.ofText text).get lcore = true ↔ cpuClass k lcore = some classId
  cpus_write : ∀ {classId k mask u k'},
    (fs.write classId .cpus (CpuMask.text mask)).run k = .ok u k' →
    (∀ lcore, cpuClass k' lcore = (cpuClass k lcore).map fun c =>
      if mask.get lcore = true then classId else if c = classId then 0 else c)
    ∧ taskClass k' = taskClass k
  tasks_write : ∀ {classId k task u k'},
    (fs.write classId .tasks (Nat.toDigits 10 task ++ ['\n'])).run k = .ok u k' →
    cpuClass k' = cpuClass k ∧ taskClass k' = Function.update (taskClass k) task classId
  refused : ∀ {classId file text k u k'}, (fs.write classId file text).run k = .error u k' →
    SameCos cpuClass taskClass k k'
  gone : ∀ {k task}, fs.taskExists k task = false → taskClass k task = 0

variable {cpuClass : κ → Nat → Option Nat} {taskClass : κ → Nat → Nat}
  (hfs : GroupFiles fs cpuClass taskClass)

include hfs

theorem cpumaskRead_ok {classId : Nat} {k k' : κ} {mask : CpuMask}
    (h : (cpumaskRead fs classId).run k = .ok mask k') :
    SameCos cpuClass taskClass k k'
      ∧ ∀ lcore < 4096, mask.get lcore = true ↔ cpuClass k lcore = some classId := by
  unfold cpumaskRead readFile at h
  simp only [map_ok, mapError_ok] at h
  obtain ⟨text, hread, rfl⟩ := h
  exact ⟨(hfs.reads classId .cpus).of_ok hread, hfs.cpus_read hread⟩

section Mask

variable {classId : Nat} {mask : CpuMask} {l : List Nat} (hl : ∀ a ∈ l, a < 4096) {k k' : κ}
  (hmask : ∀ lcore < 4096, mask.get lcore = true ↔ cpuClass k lcore = some classId)
include hl hmask

/-- Writing a class's mask with more CPUs in it takes those to the class and no other. -/
theorem cpumaskWrite_ok
    (h : (cpumaskWrite fs classId (l.foldl CpuMask.set mask)).run k = .ok () k') :
    (∀ lcore, cpuClass k' lcore = (cpuClass k lcore).map fun c => if lcore ∈ l then classId else c)
      ∧ taskClass k' = taskClass k := by
  unfold cpumaskWrite writeFile at h
  obtain ⟨hcpus, htasks⟩ := hfs.cpus_write (mapError_ok.1 h)
  refine ⟨fun lcore => (hcpus lcore).trans ?_, htasks⟩
  rcases hc : cpuClass k lcore with _ | c
  · rfl
  have hlt := hfs.cpus_lt hc
  have hget := hmask lcore hlt
  rw [hc, Option.some.injEq] at hget
  rw [Option.map_some, Option.map_some, CpuMask.class_foldl_set hlt hl hget]

end Mask

/-! ### Class definitions -/

section Definitions

end Definitions

/-! ### Cores and tasks -/

theorem osFindClass_ok {lcore c : Nat} (hl : lcore < 4096) :
    ∀ {classes : List Nat} {k k' : κ}, (osFindClass fs lcore classes).run k = .ok c k' →
      cpuClass k lcore = some c ∧ SameCos cpuClass taskClass k k'
  | [], _, _, h => by cases h
  | i :: classes, k, k', h => by
    unfold osFindClass at h
    rw [bind_ok] at h
    obtain ⟨mask, k₁, hread, h⟩ := h
    obtain ⟨hsame, hmask⟩ := cpumaskRead_ok hfs hread
    split_ifs at h with hget
    · cases h
      exact ⟨(hmask lcore hl).1 hget, hsame⟩
    · obtain ⟨hc, hsame'⟩ := osFindClass_ok hl h
      rw [hsame.1] at hc
      exact ⟨hc, (SameCos.isFrame _ _).trans hsame hsame'⟩

theorem taskWrite_run (classId task : Nat) (k : κ) :
    (∃ k', (taskWrite fs classId task).run k = .ok () k' ∧ cpuClass k' = cpuClass k
        ∧ taskClass k' = Function.update (taskClass k) task classId)
      ∨ (∃ k', (taskWrite fs classId task).run k = .error .error k'
        ∧ SameCos cpuClass taskClass k k')
      ∨ (taskWrite fs classId task).run k = .error .param k ∧ taskClass k task = 0 := by
  unfold taskWrite
  rw [get_bind]
  rcases hexists : fs.taskExists k task with _ | _
  · exact Or.inr (Or.inr ⟨bind_of_error (failIf_error.2 ⟨rfl, rfl, rfl⟩), hfs.gone hexists⟩)
  rw [bind_of_ok (a := ()) (failIf_ok.2 ⟨by simp, rfl⟩), writeFile, mapError_run]
  rcases hwrite : (fs.write classId .tasks (Nat.toDigits 10 task ++ ['\n'])).run k
    with ⟨⟨⟩, k'⟩ | ⟨⟨⟩, k'⟩
  · exact Or.inl ⟨k', rfl, hfs.tasks_write hwrite⟩
  · exact Or.inr (Or.inl ⟨k', rfl, hfs.refused hwrite⟩)

end Os

end Pqos
