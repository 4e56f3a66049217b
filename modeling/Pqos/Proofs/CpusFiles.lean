import Pqos.Cpuinfo
import Pqos.OsAllocation
import Pqos.Proofs.Cpumask
import Mathlib.Data.List.Perm.Subperm

/-!
# The cpus files

In a kernel each CPU is in one group, and the `cpus` file of a group spells the mask of its CPUs.
The library moves a core by writing its new group's mask with one bit more, and finds a core by
searching the groups, so what the calls do is an update and a lookup of a map from cores to classes.
A release and a reset go by other core numbers than these.
-/

namespace Pqos

open Prog

/-- What the `cpus` files of the first `n` groups mean, `cpuClass` being the group each CPU is in. A
file is printed as hexadecimal digits, fewer than the reader's buffer takes. Writing a mask to a
group takes its CPUs there, and those the group loses to the default group. -/
structure CpusFiles {κ : Type} (p : Platform) (fs : Resctrl κ) (cpuClass : κ → Nat → Option Nat)
    (n : Nat) : Prop where
  class_lt : ∀ {k lcore c}, cpuClass k lcore = some c → c < n
  online : ∀ k, ∀ lcore ∈ p.cpu.lcores, cpuClass k lcore ≠ none
  read : ∀ k c, c < n → ∃ text k', (fs.read c .cpus).run k = .ok text k' ∧ text.length < 512
    ∧ cpuClass k' = cpuClass k
    ∧ ∀ lcore, (CpuMask.hexValue text).testBit lcore = true ↔ cpuClass k lcore = some c
  write : ∀ {k c text u k'}, c < n → (fs.write c .cpus text).run k = .ok u k' →
    ∀ lcore, cpuClass k' lcore = (cpuClass k lcore).map fun old =>
      if (CpuMask.hexValue text).testBit lcore = true then c else if old = c then 0 else old

/-- The default group takes every mask of CPUs that are online and has those it had. -/
def DefaultAccepts {κ : Type} (fs : Resctrl κ) (cpuClass : κ → Nat → Option Nat) : Prop :=
  ∀ k text, (∀ lcore, (CpuMask.hexValue text).testBit lcore = true → cpuClass k lcore ≠ none) →
    (∀ lcore, cpuClass k lcore = some 0 → (CpuMask.hexValue text).testBit lcore = true) →
    ∃ k', (fs.write 0 .cpus text).run k = .ok () k'

section Files

variable {κ : Type} {p : Platform} {fs : Resctrl κ} {cpuClass : κ → Nat → Option Nat} {n : Nat}
  (hfs : CpusFiles p fs cpuClass n) {k k' : κ} {lcore c : Nat}
include hfs

theorem CpusFiles.lcore_lt (h : cpuClass k lcore = some c) : lcore < 4096 := by
  obtain ⟨text, k', -, hlen, -, hbits⟩ := hfs.read k c (hfs.class_lt h)
  by_contra hlt
  have hvalue : CpuMask.hexValue text < 2 ^ lcore := by
    have := CpuMask.digits_length_le text
    calc CpuMask.hexValue text < 16 ^ (CpuMask.digits text).length := CpuMask.hexValue_lt text
      _ = 2 ^ (4 * (CpuMask.digits text).length) := by rw [Nat.pow_mul]
      _ ≤ 2 ^ lcore := Nat.pow_le_pow_right Nat.two_pos (by omega)
  have hbit := (hbits lcore).2 h
  rw [Nat.testBit_lt_two_pow hvalue] at hbit
  cases hbit

/-- A group's mask is read as the file has it. -/
theorem CpusFiles.cpumaskRead (k : κ) (hc : c < n) :
    ∃ mask k', (cpumaskRead fs c).run k = .ok mask k' ∧ cpuClass k' = cpuClass k
      ∧ ∀ lcore < 4096, mask.get lcore = true ↔ cpuClass k lcore = some c := by
  obtain ⟨text, k', hread, hlen, hsame, hbits⟩ := hfs.read k c hc
  refine ⟨CpuMask.ofText text, k', ?_, hsame, fun lcore hl => ?_⟩
  · exact map_ok.2 ⟨text, mapError_ok.2 hread, rfl⟩
  · rw [CpuMask.get_ofText text hl, List.take_of_length_le (by omega)]
    exact hbits lcore

/-- Writing a group's mask back with more CPUs in it takes those to the group and no other. -/
theorem CpusFiles.cpumaskWrite {mask : CpuMask} {l : List Nat} (hc : c < n)
    (hl : ∀ a ∈ l, a < 4096)
    (hmask : ∀ lcore < 4096, mask.get lcore = true ↔ cpuClass k lcore = some c)
    (h : (cpumaskWrite fs c (l.foldl CpuMask.set mask)).run k = .ok () k') (lcore : Nat) :
    cpuClass k' lcore = (cpuClass k lcore).map fun old => if lcore ∈ l then c else old := by
  rw [hfs.write hc (mapError_ok.1 h) lcore]
  rcases hcls : cpuClass k lcore with _ | old
  · rfl
  have hlt := hfs.lcore_lt hcls
  have hget := hmask lcore hlt
  rw [hcls, Option.some.injEq] at hget
  rw [Option.map_some, Option.map_some, CpuMask.testBit_text _ hlt,
    CpuMask.class_foldl_set hlt hl hget]

/-! ## Setting and getting -/

/-- A call that succeeds moves the core and no other. -/
theorem osAllocAssocSet_moves (hc : c < n)
    (h : (osAllocAssocSet p fs lcore c).run k = .ok () k') :
    cpuClass k' = Function.update (cpuClass k) lcore (some c) := by
  unfold osAllocAssocSet at h
  simp only [bind_ok, failIf_ok, ofExcept_ok] at h
  obtain ⟨_, _, ⟨hcore, rfl⟩, _, _, ⟨-, rfl⟩, _, _, ⟨-, rfl⟩, _, k₀, ⟨-, rfl⟩, mask, k₁, hread,
    hwrite⟩ := h
  obtain ⟨mask', k₂, hread', hsame, hmask⟩ := hfs.cpumaskRead k₀ hc
  rw [hread'] at hread
  cases hread
  rw [CpuInfo.getCoreInfo_eq_none, not_not] at hcore
  have honline := hfs.online k₀ lcore hcore
  obtain ⟨old, hold⟩ := Option.ne_none_iff_exists'.1 honline
  have hl : ∀ a ∈ [lcore], a < 4096 := by simpa using hfs.lcore_lt hold
  rw [← hsame] at hmask hold ⊢
  funext a
  rw [hfs.cpumaskWrite hc hl hmask hwrite a]
  by_cases ha : a = lcore
  · rw [ha, Function.update_self, hold]
    simp
  · rw [Function.update_of_ne ha]
    cases cpuClass k₁ a <;> simp [ha]

theorem osFindClass_run (hcls : cpuClass k lcore = some c) :
    ∀ {classes : List Nat} {k₁ : κ}, c ∈ classes → (∀ i ∈ classes, i < n) →
      cpuClass k₁ = cpuClass k → ∃ k', (osFindClass fs lcore classes).run k₁ = .ok c k'
  | [], _, h, _, _ => by cases h
  | i :: classes, k₁, h, hlt, hk₁ => by
    obtain ⟨mask, k₂, hread, hsame, hmask⟩ := hfs.cpumaskRead k₁ (hlt i List.mem_cons_self)
    have hget := hmask lcore (hfs.lcore_lt hcls)
    rw [hk₁, hcls, Option.some.injEq] at hget
    unfold osFindClass
    rw [bind_of_ok hread]
    by_cases heq : c = i
    · rw [if_pos (hget.2 heq), heq]
      exact ⟨k₂, rfl⟩
    · rw [if_neg fun h => heq (hget.1 h)]
      refine osFindClass_run hcls ((List.mem_cons.1 h).resolve_left heq)
        (fun j hj => hlt j (List.mem_cons_of_mem _ hj)) (hsame.trans hk₁)

/-- A core's class is the group it is in. -/
theorem osAllocAssocGet_outcome (hn : p.getGrpsNum = .ok n) (k : κ) (lcore : Nat) :
    outcome ((osAllocAssocGet p fs lcore).run k)
      = if lcore ∈ p.cpu.lcores then .ok ((cpuClass k lcore).getD 0) else .error .param := by
  unfold osAllocAssocGet
  by_cases hcore : lcore ∈ p.cpu.lcores
  · obtain ⟨c, hcls⟩ := Option.ne_none_iff_exists'.1 (hfs.online k lcore hcore)
    obtain ⟨k', hfind⟩ := osFindClass_run hfs hcls (List.mem_range.2 (hfs.class_lt hcls))
      (fun i hi => List.mem_range.1 hi) rfl
    have hinfo : ¬ p.cpu.getCoreInfo lcore = none := by
      rwa [CpuInfo.getCoreInfo_eq_none, not_not]
    rw [if_pos hcore, hcls, bind_of_ok (a := ()) (failIf_ok.2 ⟨hinfo, rfl⟩),
      bind_of_ok (ofExcept_ok.2 ⟨hn, rfl⟩), hfind]
    rfl
  · rw [if_neg hcore,
      bind_of_error (failIf_error.2 ⟨CpuInfo.getCoreInfo_eq_none.2 hcore, rfl, rfl⟩)]
    rfl

omit hfs in
variable (p fs) in
/-- The kernel after a sequence of calls, each of a core and a class, whether they succeed or
not. -/
def assocRun (calls : List (Nat × Nat)) (k : κ) : κ :=
  calls.foldl (fun k call => final ((osAllocAssocSet p fs call.1 call.2).run k)) k

/-- Whatever calls came before, a core is found in the class it was last set to, and setting it does
not change where the others are found. -/
theorem osAllocAssoc_history (hn : p.getGrpsNum = .ok n) (calls : List (Nat × Nat)) (k : κ)
    (hc : c < n) (h : (osAllocAssocSet p fs lcore c).run (assocRun p fs calls k) = .ok () k') :
    outcome ((osAllocAssocGet p fs lcore).run k') = .ok c
      ∧ ∀ other ≠ lcore, outcome ((osAllocAssocGet p fs other).run k')
        = outcome ((osAllocAssocGet p fs other).run (assocRun p fs calls k)) := by
  have hmoves := osAllocAssocSet_moves hfs hc h
  have hcore : lcore ∈ p.cpu.lcores := by
    unfold osAllocAssocSet at h
    simp only [bind_ok, failIf_ok] at h
    obtain ⟨_, _, ⟨hcore, -⟩, -⟩ := h
    rwa [CpuInfo.getCoreInfo_eq_none, not_not] at hcore
  refine ⟨?_, fun other hne => ?_⟩
  · rw [osAllocAssocGet_outcome hfs hn, if_pos hcore, hmoves, Function.update_self,
      Option.getD_some]
  · rw [osAllocAssocGet_outcome hfs hn, osAllocAssocGet_outcome hfs hn, hmoves,
      Function.update_of_ne hne]

/-! ## Reset and release -/

theorem CpusFiles.cores_length_le [Nonempty κ] : p.cpu.cores.length ≤ 4096 := by
  obtain ⟨k⟩ := ‹Nonempty κ›
  have hsub : p.cpu.lcores ⊆ List.range 4096 := by
    intro lcore hl
    obtain ⟨c, hc⟩ := Option.ne_none_iff_exists'.1 (hfs.online k lcore hl)
    exact List.mem_range.2 (hfs.lcore_lt hc)
  have hle := (List.subperm_of_subset p.cpu.nodup hsub).length_le
  rwa [List.length_map, List.length_range] at hle

/-- The mask written back to the default group takes the cores added to it there. -/
theorem osDefaultWrite_moves {mask : CpuMask} {l : List Nat} (hn : 0 < n) (hl : ∀ a ∈ l, a < 4096)
    (hmask : ∀ lcore < 4096, mask.get lcore = true ↔ cpuClass k lcore = some 0)
    (h : (cpumaskWrite fs 0 (l.foldl CpuMask.set mask)).run k = .ok () k') :
    ∀ lcore, cpuClass k' lcore = if lcore ∈ l then (cpuClass k lcore).map fun _ => 0
      else cpuClass k lcore := by
  intro lcore
  rw [hfs.cpumaskWrite hn hl hmask h]
  by_cases hmem : lcore ∈ l <;> simp [hmem]

/-- What a reset takes to class 0 are the cores whose numbers are below their count. -/
theorem osAllocResetAssoc_moves (hn : 0 < n) (h : (osAllocResetAssoc p fs).run k = .ok () k')
    (lcore : Nat) : cpuClass k' lcore = if lcore < p.cpu.cores.length
      then (cpuClass k lcore).map fun _ => 0 else cpuClass k lcore := by
  have : Nonempty κ := ⟨k⟩
  have hlen := hfs.cores_length_le
  unfold osAllocResetAssoc at h
  rw [bind_ok] at h
  obtain ⟨mask, k₁, hread, hwrite⟩ := h
  obtain ⟨mask', k₂, hread', hsame, hmask⟩ := hfs.cpumaskRead k hn
  rw [hread'] at hread
  cases hread
  rw [← hsame] at hmask ⊢
  have hl : ∀ a ∈ List.range p.cpu.cores.length, a < 4096 := fun a ha =>
    Nat.lt_of_lt_of_le (List.mem_range.1 ha) hlen
  rw [osDefaultWrite_moves hfs hn hl hmask hwrite lcore]
  simp only [List.mem_range]

/-- A release of cores whose numbers are all below their count takes them, and only them, to
class 0. -/
theorem osAllocRelease_run (hacc : DefaultAccepts fs cpuClass) (hn : 0 < n) {l : List Nat}
    (hl : ∀ a ∈ l, a ∈ p.cpu.lcores) (hlt : ∀ a ∈ l, a < p.cpu.cores.length) (k : κ) :
    ∃ k', (osAllocRelease p fs l).run k = .ok () k'
      ∧ ∀ lcore, cpuClass k' lcore = if lcore ∈ l then some 0 else cpuClass k lcore := by
  have honline : ∀ a ∈ l, cpuClass k a ≠ none := fun a ha => hfs.online k a (hl a ha)
  have hmax : ∀ a ∈ l, a < 4096 := by
    intro a ha
    obtain ⟨c, hc⟩ := Option.ne_none_iff_exists'.1 (honline a ha)
    exact hfs.lcore_lt hc
  obtain ⟨mask, k₁, hread, hsame, hmask⟩ := hfs.cpumaskRead k hn
  rw [← hsame] at hmask honline ⊢
  have hbits : ∀ lcore < 4096,
      (CpuMask.hexValue (l.foldl CpuMask.set mask).text).testBit lcore = true
        ↔ cpuClass k₁ lcore = some 0 ∨ lcore ∈ l := by
    intro lcore hlcore
    rw [CpuMask.testBit_text _ hlcore, CpuMask.get_foldl_set hlcore hmax, Bool.or_eq_true,
      hmask lcore hlcore, decide_eq_true_eq]
  have hwrite : ∃ k', (fs.write 0 .cpus (l.foldl CpuMask.set mask).text).run k₁ = .ok () k' := by
    refine hacc k₁ _ (fun lcore hbit => ?_) fun lcore hcls => ?_
    · rcases (hbits lcore (CpuMask.lt_of_testBit_text hbit)).1 hbit with hcls | hmem
      · rw [hcls]
        exact Option.some_ne_none 0
      · exact honline lcore hmem
    · exact (hbits lcore (hfs.lcore_lt hcls)).2 (Or.inl hcls)
  obtain ⟨k', hwrite⟩ := hwrite
  have hnone : ¬ ∃ a ∈ l, p.cpu.cores.length ≤ a := by
    rintro ⟨a, ha, hle⟩
    exact Nat.not_le_of_lt (hlt a ha) hle
  refine ⟨k', ?_, fun lcore => ?_⟩
  · unfold osAllocRelease
    rw [bind_of_ok hread, bind_of_ok (a := ()) (failIf_ok.2 ⟨hnone, rfl⟩)]
    exact mapError_ok.2 hwrite
  · rw [osDefaultWrite_moves hfs hn hmax hmask (mapError_ok.2 hwrite) lcore]
    by_cases hmem : lcore ∈ l
    · obtain ⟨c, hc⟩ := Option.ne_none_iff_exists'.1 (honline lcore hmem)
      rw [if_pos hmem, if_pos hmem, hc, Option.map_some]
    · rw [if_neg hmem, if_neg hmem]

/-- A core whose number is not below the count of the cores is refused. -/
theorem osAllocRelease_refused (hn : 0 < n) {l : List Nat} {a : Nat} (ha : a ∈ l)
    (hle : p.cpu.cores.length ≤ a) (k : κ) :
    outcome ((osAllocRelease p fs l).run k) = .error .error := by
  obtain ⟨mask, k₁, hread, -, -⟩ := hfs.cpumaskRead k hn
  unfold osAllocRelease
  rw [bind_of_ok hread, bind_of_error (failIf_error.2 ⟨⟨a, ha, hle⟩, rfl, rfl⟩)]
  rfl

/-- A reset takes every core to class 0 unless it passes one over that is elsewhere, and a release
moves the cores it is given if and only if it accepts their numbers. -/
theorem osAlloc_covers_iff (hacc : DefaultAccepts fs cpuClass) (hn : 0 < n) :
    (∀ k k', (osAllocResetAssoc p fs).run k = .ok () k' →
      ((∀ lcore ∈ p.cpu.lcores, cpuClass k' lcore = some 0)
        ↔ ∀ lcore ∈ p.cpu.lcores, p.cpu.cores.length ≤ lcore → cpuClass k lcore = some 0))
    ∧ ∀ k l, l ≠ [] → (∀ a ∈ l, p.cpu.checkCore a = .ok ()) →
      ((∃ k', (osAllocRelease p fs l).run k = .ok () k'
          ∧ ∀ lcore, cpuClass k' lcore = if lcore ∈ l then some 0 else cpuClass k lcore)
        ↔ ∀ a ∈ l, a < p.cpu.cores.length) := by
  refine ⟨fun k k' h => ⟨fun hall lcore hl hge => ?_, fun hrest lcore hl => ?_⟩,
    fun k l _ hl => ⟨fun h a ha => ?_, fun hlt => ?_⟩⟩
  · have hclass := hall lcore hl
    rwa [osAllocResetAssoc_moves hfs hn h, if_neg (Nat.not_lt_of_le hge)] at hclass
  · rw [osAllocResetAssoc_moves hfs hn h]
    obtain ⟨c, hc⟩ := Option.ne_none_iff_exists'.1 (hfs.online k lcore hl)
    by_cases hlt : lcore < p.cpu.cores.length
    · rw [if_pos hlt, hc, Option.map_some]
    · rw [if_neg hlt]
      exact hrest lcore hl (Nat.le_of_not_lt hlt)
  · obtain ⟨k', hrun, -⟩ := h
    by_contra hge
    have hrefused := osAllocRelease_refused hfs hn ha (Nat.le_of_not_lt hge) k
    rw [hrun] at hrefused
    cases hrefused
  · exact osAllocRelease_run hfs hacc hn (fun a ha => CpuInfo.checkCore_ok.1 (hl a ha)) hlt k

end Files

/-! ## Gaps -/

/-- In a topology that was discovered every core's number is below the count of the cores if and
only if no processor is offline below one that is online. -/
theorem cpuinfoBuildTopo_dense_iff {apic : ApicInfo} {affinity : Affinity} {maxCoreCount : Nat}
    {cpu : CpuInfo} (h : cpuinfoBuildTopo apic affinity maxCoreCount = some cpu) :
    (∀ lcore ∈ cpu.lcores, lcore < cpu.cores.length)
      ↔ ∀ i j, i < j → j < maxCoreCount → (affinity j).isSome → (affinity i).isSome := by
  unfold cpuinfoBuildTopo at h
  split_ifs at h
  cases h
  have hmem : ∀ i, i ∈ (detectedCores apic affinity maxCoreCount).map CoreInfo.lcore
      ↔ i < maxCoreCount ∧ (affinity i).isSome := by
    intro i
    rw [detectedCores_lcores, List.mem_filter, List.mem_range]
  have hnodup := detectedCores_nodup apic affinity maxCoreCount
  have hlen : ((detectedCores apic affinity maxCoreCount).map CoreInfo.lcore).length
      = (detectedCores apic affinity maxCoreCount).length := List.length_map _
  unfold CpuInfo.lcores
  dsimp only
  rw [← hlen]
  generalize (detectedCores apic affinity maxCoreCount).map CoreInfo.lcore = l at hmem hnodup
  constructor
  · intro hlt i j hij hj hon
    -- as many numbers below their count as there are, so none is missing
    have hperm : l.Perm (List.range l.length) :=
      (List.subperm_of_subset hnodup fun a ha => List.mem_range.2 (hlt a ha)).perm_of_length_le
        (by rw [List.length_range])
    have hjlen := hlt j ((hmem j).2 ⟨hj, hon⟩)
    exact ((hmem i).1 (hperm.mem_iff.2 (List.mem_range.2 (Nat.lt_trans hij hjlen)))).2
  · intro hbelow j hj
    obtain ⟨hjmax, hon⟩ := (hmem j).1 hj
    have hsub : List.range (j + 1) ⊆ l := by
      intro i hi
      rcases Nat.lt_succ_iff_lt_or_eq.1 (List.mem_range.1 hi) with hij | rfl
      · exact (hmem i).2 ⟨Nat.lt_trans hij hjmax, hbelow i j hij hjmax hon⟩
      · exact hj
    have hle := (List.subperm_of_subset List.nodup_range hsub).length_le
    rwa [List.length_range] at hle

/-! ## A small kernel -/

/-- CPU 0 and another, each in one of two groups. -/
def twoCpuClass (other : Nat) (k : Bool × Bool) (lcore : Nat) : Option Nat :=
  if lcore = 0 then some k.1.toNat else if lcore = other then some k.2.toNat else none

/-- The group of a CPU, 0 or 1, after a mask was written to group `c`. -/
def movedTo (c : Nat) (text : List Char) (lcore : Nat) (old : Bool) : Bool :=
  if (CpuMask.hexValue text).testBit lcore = true then c = 1
  else if old.toNat = c then false else old

def twoCpuFiles (other : Nat) : Resctrl (Bool × Bool) where
  read c file := do
    failIf (file ≠ .cpus) ()
    let k ← get
    return [Nat.digitChar ((if k.1.toNat = c then 1 else 0)
      + if k.2.toNat = c then 2 ^ other else 0), '\n']
  write c file text := do
    failIf (file ≠ .cpus) ()
    modify fun k => (movedTo c text 0 k.1, movedTo c text other k.2)
  taskExists _ _ := false

theorem movedTo_toNat {c lcore : Nat} (hc : c < 2) (text : List Char) (old : Bool) :
    (movedTo c text lcore old).toNat
      = if (CpuMask.hexValue text).testBit lcore = true then c else if old.toNat = c then 0
        else old.toNat := by
  unfold movedTo
  split_ifs
  · obtain rfl | rfl : c = 0 ∨ c = 1 := by omega
    · rfl
    · rfl
  · rfl
  · rfl

theorem twoCpuFiles_cpusFiles {p : Platform} {other : Nat} (hp : p.cpu.lcores = [0, other])
    (hother : other = 1 ∨ other = 2) :
    CpusFiles p (twoCpuFiles other) (twoCpuClass other) 2 where
  class_lt {k lcore c} h := by
    unfold twoCpuClass at h
    split_ifs at h <;> cases h <;> exact Bool.toNat_lt _
  online k lcore h := by
    rw [hp, List.mem_cons, List.mem_singleton] at h
    unfold twoCpuClass
    rcases h with rfl | rfl
    · simp
    · by_cases hzero : lcore = 0 <;> simp [hzero]
  read k c hc := by
    refine ⟨_, k, rfl, by simp, rfl, fun lcore => ?_⟩
    have hvalue : ∀ v < 16, CpuMask.hexValue [Nat.digitChar v, '\n'] = v := by decide
    rw [hvalue _ (by rcases hother with rfl | rfl <;> split_ifs <;> decide)]
    obtain ⟨x, y⟩ := k
    rcases hother with rfl | rfl
    all_goals
      match lcore with
      | 0 | 1 | 2 => revert x y c; decide
      | m + 3 =>
        have hbit : ∀ v < 8, v.testBit (m + 3) = false := fun v hv =>
          Nat.testBit_lt_two_pow (Nat.lt_of_lt_of_le hv
            (Nat.pow_le_pow_right Nat.two_pos (by omega : 3 ≤ m + 3)))
        rw [hbit _ (by split_ifs <;> decide)]
        simp [twoCpuClass]
  write {k c text u k'} hc h lcore := by
    cases h
    unfold twoCpuClass
    by_cases h0 : lcore = 0
    · rw [if_pos h0, if_pos h0, Option.map_some, movedTo_toNat hc, h0]
    · rw [if_neg h0, if_neg h0]
      by_cases h1 : lcore = other
      · rw [if_pos h1, if_pos h1, Option.map_some, movedTo_toNat hc, h1]
      · rw [if_neg h1, if_neg h1, Option.map_none]

theorem twoCpuFiles_defaultAccepts (other : Nat) :
    DefaultAccepts (twoCpuFiles other) (twoCpuClass other) := fun _ _ _ _ => ⟨_, rfl⟩

/-- Two L3 classes on the OS interface. -/
def twoGroups (cpu : CpuInfo) : Platform where
  initDone := true
  interface := .os
  cap := [⟨true, .l3ca ⟨2, 11, 0, false, false⟩⟩]
  cpu := cpu
  fails _ _ := false

def pairCpu : CpuInfo := (smallPlatform []).cpu

/-- CPU 1 follows CPU 0 into class 1 and back. -/
theorem osAllocAssoc_history_pair :
    ∃ k', (osAllocAssocSet (twoGroups pairCpu) (twoCpuFiles 1) 1 0).run
        (assocRun (twoGroups pairCpu) (twoCpuFiles 1) [(0, 1), (1, 1)] (false, false)) = .ok () k'
      ∧ outcome ((osAllocAssocGet (twoGroups pairCpu) (twoCpuFiles 1) 1).run k') = .ok 0
      ∧ ∀ other ≠ 1, outcome ((osAllocAssocGet (twoGroups pairCpu) (twoCpuFiles 1) other).run k')
        = outcome ((osAllocAssocGet (twoGroups pairCpu) (twoCpuFiles 1) other).run
          (assocRun (twoGroups pairCpu) (twoCpuFiles 1) [(0, 1), (1, 1)] (false, false))) := by
  obtain ⟨k', hrun⟩ := value_eq_some.1 (show value ((osAllocAssocSet (twoGroups pairCpu)
    (twoCpuFiles 1) 1 0).run (assocRun (twoGroups pairCpu) (twoCpuFiles 1) [(0, 1), (1, 1)]
      (false, false))) = some () by decide +kernel)
  exact ⟨k', hrun, osAllocAssoc_history (twoCpuFiles_cpusFiles rfl (Or.inl rfl)) (by decide)
    [(0, 1), (1, 1)] (false, false) (by decide) hrun⟩

/-- Three processors, the second of them offline. -/
def gapAffinity : Affinity := fun cpu => if cpu = 1 then none else some (BitVec.ofNat 32 cpu)

def gapCpu : CpuInfo :=
  ⟨detectedCores ⟨0, 0, 8, 0⟩ gapAffinity 3, detectedCores_nodup _ _ _, by decide⟩

theorem gapCpu_cpusFiles :
    CpusFiles (twoGroups gapCpu) (twoCpuFiles 2) (twoCpuClass 2) 2 :=
  twoCpuFiles_cpusFiles rfl (Or.inr rfl)

theorem osAlloc_covers_iff_gap :
    (∀ k k', (osAllocResetAssoc (twoGroups gapCpu) (twoCpuFiles 2)).run k = .ok () k' →
      ((∀ lcore ∈ gapCpu.lcores, twoCpuClass 2 k' lcore = some 0)
        ↔ ∀ lcore ∈ gapCpu.lcores, gapCpu.cores.length ≤ lcore → twoCpuClass 2 k lcore = some 0))
    ∧ ∀ k l, l ≠ [] → (∀ a ∈ l, gapCpu.checkCore a = .ok ()) →
      ((∃ k', (osAllocRelease (twoGroups gapCpu) (twoCpuFiles 2) l).run k = .ok () k'
          ∧ ∀ lcore, twoCpuClass 2 k' lcore = if lcore ∈ l then some 0 else twoCpuClass 2 k lcore)
        ↔ ∀ a ∈ l, a < gapCpu.cores.length) :=
  osAlloc_covers_iff gapCpu_cpusFiles (twoCpuFiles_defaultAccepts 2) (by decide)

/-- CPU 2 is one of two cores. A reset leaves it in class 1, and a release of it is refused. -/
theorem osAlloc_misses_gap :
    cpuinfoBuildTopo ⟨0, 0, 8, 0⟩ gapAffinity 3 = some gapCpu
      ∧ ¬ (∀ k k', (osAllocResetAssoc (twoGroups gapCpu) (twoCpuFiles 2)).run k = .ok () k' →
        ∀ lcore ∈ gapCpu.lcores, twoCpuClass 2 k' lcore = some 0)
      ∧ ¬ (∀ k l, l ≠ [] → (∀ a ∈ l, gapCpu.checkCore a = .ok ()) →
        ∃ k', (osAllocRelease (twoGroups gapCpu) (twoCpuFiles 2) l).run k = .ok () k'
          ∧ ∀ lcore, twoCpuClass 2 k' lcore = if lcore ∈ l then some 0
            else twoCpuClass 2 k lcore) := by
  refine ⟨rfl, fun hall => ?_, fun hall => ?_⟩
  · have hrun : ∃ k', (osAllocResetAssoc (twoGroups gapCpu) (twoCpuFiles 2)).run (false, true)
        = .ok () k' := value_eq_some.1 (by decide +kernel)
    obtain ⟨k', hrun⟩ := hrun
    have hzero := hall _ k' hrun 2 (by decide)
    rw [osAllocResetAssoc_moves gapCpu_cpusFiles (by decide) hrun] at hzero
    revert hzero
    decide
  · obtain ⟨k', hrun, -⟩ := hall (false, true) [2] (by decide) (by simp; rfl)
    have hrefused := osAllocRelease_refused gapCpu_cpusFiles (by decide)
      (List.mem_singleton_self 2) (by decide) (false, true)
    rw [hrun] at hrefused
    cases hrefused

end Pqos
