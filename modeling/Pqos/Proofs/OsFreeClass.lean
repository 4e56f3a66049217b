import Pqos.OsAllocation
import Pqos.Proofs.Assign
import Pqos.Proofs.Cpumask

/-!
# The free class on the OS interface

A class is in use when its `cpus` file spells a mask with any CPU, or its `tasks` file has anything
in it. The search looks at both files of every class and takes the highest that is not in use.
-/

namespace Pqos

open Prog

/-! ## Empty masks -/

namespace CpuMask

theorem any_eq_false {mask : CpuMask} : mask.any = false ↔ mask = empty := by
  constructor
  · intro h
    have hzero : ∀ b ∈ mask.tab.toList, b = 0 := by
      intro b hb
      have := List.any_eq_false.1 h b hb
      simpa using this
    refine ext_get fun lcore hl => ?_
    have hidx : 511 - lcore / 8 < 512 := by omega
    rw [get_empty, get_eq hl, Vector.getElem?_eq_getElem hidx, Option.getD_some,
      hzero _ (Vector.mem_toList_iff.2 (Vector.getElem_mem hidx))]
    exact BitVec.getLsbD_zero
  · rintro rfl
    decide +kernel

/-- A text spells the empty mask when it spells 0. -/
theorem any_ofText {text : List Char} (h : text.length < 512) :
    (ofText text).any = false ↔ hexValue text = 0 := by
  rw [any_eq_false]
  constructor
  · intro he
    refine Nat.eq_of_testBit_eq fun i => ?_
    rw [Nat.zero_testBit]
    rcases Nat.lt_or_ge i 4096 with hi | hi
    · have := get_ofText text hi
      rw [he, get_empty, List.take_of_length_le (by omega)] at this
      exact this.symm
    · have hlen := digits_length_le text
      refine Nat.testBit_lt_two_pow (Nat.lt_of_lt_of_le (hexValue_lt text) ?_)
      rw [show (16 : Nat) = 2 ^ 4 from rfl, ← Nat.pow_mul]
      exact Nat.pow_le_pow_right Nat.two_pos (by omega)
  · intro h0
    refine ext_get fun lcore hl => ?_
    rw [get_ofText text hl, List.take_of_length_le (by omega), h0, get_empty, Nat.zero_testBit]

end CpuMask

/-! ## Files that can be read -/

section Files

variable {κ : Type} {fs : Resctrl κ} {text : κ → Nat → RctlFile → List Char} {hi c : Nat} {k k' : κ}

/-- The `cpus` and `tasks` files of the classes up to `hi` are read as `text` has them, and reading
changes none of them. A `cpus` file is shorter than the reader's buffer. -/
structure ReadableFiles (fs : Resctrl κ) (text : κ → Nat → RctlFile → List Char) (hi : Nat) :
    Prop where
  read : ∀ k c file, c ≤ hi → file ≠ .schemata →
    ∃ k', (fs.read c file).run k = .ok (text k c file) k' ∧ text k' = text k
  fits : ∀ k c, c ≤ hi → (text k c .cpus).length < 512

/-- A class whose mask is empty and whose `tasks` file is. -/
def FreeClass (text : Nat → RctlFile → List Char) (c : Nat) : Prop :=
  CpuMask.hexValue (text c .cpus) = 0 ∧ text c .tasks = []

instance (text : Nat → RctlFile → List Char) (c : Nat) : Decidable (FreeClass text c) :=
  inferInstanceAs (Decidable (_ ∧ _))

variable (h : ReadableFiles fs text hi)
include h

theorem osClassUsed_run (hc : c ≤ hi) (k : κ) : ∃ k',
    (osClassUsed fs c).run k = .ok (!decide (FreeClass (text k) c)) k' ∧ text k' = text k := by
  obtain ⟨k₁, hcpus, h₁⟩ := h.read k c .cpus hc (by decide)
  have hmask : (cpumaskRead fs c).run k = .ok (CpuMask.ofText (text k c .cpus)) k₁ :=
    map_ok.2 ⟨_, mapError_ok.2 hcpus, rfl⟩
  unfold osClassUsed
  rw [bind_of_ok hmask]
  rcases hany : (CpuMask.ofText (text k c .cpus)).any with _ | _
  · -- only a class without CPUs has its tasks looked at
    have hzero := (CpuMask.any_ofText (h.fits k c hc)).1 hany
    obtain ⟨k₂, htasks, h₂⟩ := h.read k₁ c .tasks hc (by decide)
    refine ⟨k₂, ?_, h₂.trans h₁⟩
    have htask : (taskFileCheck fs c).run k₁ = .ok (decide (text k c .tasks ≠ [])) k₂ := by
      have hread : (readFile fs c .tasks).run k₁ = .ok (text k₁ c .tasks) k₂ := mapError_ok.2 htasks
      unfold taskFileCheck
      rw [bind_of_ok hread, h₁]
      rfl
    rw [if_neg Bool.false_ne_true, htask]
    simp [FreeClass, hzero]
  · have hne : CpuMask.hexValue (text k c .cpus) ≠ 0 := fun h0 => by
      rw [(CpuMask.any_ofText (h.fits k c hc)).2 h0] at hany
      cases hany
    refine ⟨k₁, ?_, h₁⟩
    simp [FreeClass, hne]

/-- The loop over the files finds the classes that are not free. -/
theorem osUsedClasses_run : ∀ {n : Nat} (k : κ), n ≤ hi → ∃ used k',
    (osUsedClasses fs n).run k = .ok used k' ∧ text k' = text k
      ∧ ∀ c, c ∈ used ↔ 1 ≤ c ∧ c ≤ n ∧ ¬ FreeClass (text k) c
  | 0, k, _ => ⟨[], k, rfl, rfl, fun c => by simp; omega⟩
  | n + 1, k, hn => by
    obtain ⟨k₁, hused, h₁⟩ := osClassUsed_run h hn k
    obtain ⟨used, k₂, hloop, h₂, hmem⟩ := osUsedClasses_run k₁ (n := n) (by omega)
    rw [h₁] at hmem
    refine ⟨if !decide (FreeClass (text k) (n + 1)) then (n + 1) :: used else used, k₂, ?_,
      h₂.trans h₁, fun c => ?_⟩
    · unfold osUsedClasses
      rw [bind_of_ok hused, bind_of_ok hloop]
      rfl
    · by_cases hfree : FreeClass (text k) (n + 1)
      · simp only [hfree, decide_true, Bool.not_true, Bool.false_eq_true, if_false, hmem]
        constructor
        · rintro ⟨h1, hle, hnot⟩
          exact ⟨h1, by omega, hnot⟩
        · rintro ⟨h1, hle, hnot⟩
          rcases Nat.lt_or_ge n c with hlt | hge
          · exact absurd (show FreeClass (text k) c by rwa [show c = n + 1 by omega]) hnot
          · exact ⟨h1, hge, hnot⟩
      · simp only [hfree, decide_false, Bool.not_false, if_true, List.mem_cons, hmem]
        constructor
        · rintro (rfl | ⟨h1, hle, hnot⟩)
          · exact ⟨by omega, le_rfl, hfree⟩
          · exact ⟨h1, by omega, hnot⟩
        · rintro ⟨h1, hle, hnot⟩
          rcases Nat.lt_or_ge n c with hlt | hge
          · exact Or.inl (by omega)
          · exact Or.inr ⟨h1, hge, hnot⟩

/-- The highest free class above 0 is found if there is one, and if there is none the search fails
for that reason. -/
theorem osGetUnusedCos_highest (k : κ) :
    (∀ c, value ((osGetUnusedCos fs hi).run k) = some c ↔ 1 ≤ c ∧ c ≤ hi ∧ FreeClass (text k) c
      ∧ ∀ d, c < d → d ≤ hi → ¬ FreeClass (text k) d) ∧
    (failure ((osGetUnusedCos fs hi).run k) = some .resource
      ↔ ∀ c, 1 ≤ c → c ≤ hi → ¬ FreeClass (text k) c) := by
  obtain ⟨used, k', hused, -, hmem⟩ := osUsedClasses_run h k le_rfl
  have hrun : (osGetUnusedCos fs hi).run k
      = (ofOption Err.resource (findUnused used hi)).run k' := bind_of_ok hused
  have hfind : ∀ c, findUnused used hi = some c ↔ 1 ≤ c ∧ c ≤ hi ∧ FreeClass (text k) c
      ∧ ∀ d, c < d → d ≤ hi → ¬ FreeClass (text k) d := by
    intro c
    rw [findUnused_ok]
    refine and_congr_right fun h1 => and_congr_right fun hle => and_congr ?_ ?_
    · rw [hmem, not_and, not_and, not_not]
      exact ⟨fun hf => hf h1 hle, fun hf _ _ => hf⟩
    · refine forall_congr' fun d => forall_congr' fun hcd => forall_congr' fun hdh => ?_
      rw [hmem]
      exact ⟨fun hd => hd.2.2, fun hd => ⟨by omega, hdh, hd⟩⟩
  have hnone : findUnused used hi = none ↔ ∀ c, 1 ≤ c → c ≤ hi → ¬ FreeClass (text k) c := by
    rw [findUnused_none]
    refine forall_congr' fun c => forall_congr' fun h1 => forall_congr' fun hle => ?_
    rw [hmem]
    exact ⟨fun hc => hc.2.2, fun hc => ⟨h1, hle, hc⟩⟩
  rw [hrun, ofOption_run]
  refine ⟨fun c => ?_, ?_⟩
  · rw [← hfind c]
    rcases findUnused used hi with _ | c₀ <;> simp [value]
  · rw [← hnone]
    rcases findUnused used hi with _ | c₀ <;> simp [Prog.failure]

end Files

/-- A kernel whose files never change. -/
def fixedFiles (text : Nat → RctlFile → List Char) : Resctrl Unit where
  read c file := pure (text c file)
  write _ _ _ := throw ()
  taskExists _ _ := false

/-- The first class has a CPU, the second a task, and the third nothing. -/
def threeClasses (c : Nat) (file : RctlFile) : List Char :=
  if c = 1 ∧ file = .cpus then ['3', '\n']
  else if c = 2 ∧ file = .tasks then ['7', '\n']
  else if file = .cpus then ['0', '\n']
  else []

theorem osGetUnusedCos_third :
    value ((osGetUnusedCos (fixedFiles threeClasses) 3).run ()) = some 3 := by
  have h : ReadableFiles (fixedFiles threeClasses) (fun _ => threeClasses) 3 := by
    refine ⟨fun k c file _ _ => ⟨k, rfl, rfl⟩, fun _ c _ => ?_⟩
    unfold threeClasses
    split_ifs <;> decide
  refine ((osGetUnusedCos_highest h ()).1 3).2 ⟨by decide, le_rfl, by decide, fun d hd hle => ?_⟩
  omega

end Pqos
