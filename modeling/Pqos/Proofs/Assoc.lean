import Pqos.Allocation

/-!
# The association register

Its high half is the class, its low ten bits the RMID: setting one leaves the other alone, and a
loop of settings changes the association registers of its cores and nothing else.
-/

namespace Pqos

open Prog

/-! ## The two halves -/

theorem getLsbD_withCos (v : Word) (c i : Nat) :
    (withCos v c).getLsbD i =
      if i < 32 then v.getLsbD i else decide (i < 64) && c.testBit (i - 32) := by
  have hm : (0xffffffff00000000#64).getLsbD i = (decide (32 ≤ i) && decide (i < 64)) := by
    rcases Nat.lt_or_ge i 64 with hi | hi
    · revert i
      decide
    · simp [BitVec.getLsbD_of_ge _ _ hi, Nat.not_lt.2 hi]
  unfold withCos
  simp only [BitVec.getLsbD_or, BitVec.getLsbD_and, BitVec.getLsbD_not, hm,
    BitVec.getLsbD_shiftLeft, BitVec.getLsbD_ofNat]
  split_ifs with h
  · have h64 : i < 64 := by omega
    simp [h, h64, Nat.not_le.2 h]
  · rcases Nat.lt_or_ge i 64 with hi | hi
    · have : i - 32 < 64 := by omega
      simp [h, hi, Nat.not_lt.1 h, this]
    · simp [h, Nat.not_lt.2 hi]

theorem cosOf_withCos (v : Word) {c : Nat} (hc : c < 2 ^ 32) : cosOf (withCos v c) = c := by
  unfold cosOf
  apply Nat.eq_of_testBit_eq
  intro i
  rw [BitVec.testBit_toNat, BitVec.getLsbD_ushiftRight, getLsbD_withCos]
  rw [if_neg (by omega), Nat.add_sub_cancel_left]
  rcases Nat.lt_or_ge i 32 with hi | hi
  · simp [show 32 + i < 64 by omega]
  · rw [Nat.testBit_lt_two_pow (Nat.lt_of_lt_of_le hc (Nat.pow_le_pow_right (by omega) hi))]
    simp

theorem withCos_withCos (v : Word) (c c' : Nat) : withCos (withCos v c) c' = withCos v c' := by
  apply BitVec.eq_of_getLsbD_eq
  intro i _
  simp only [getLsbD_withCos]
  split_ifs <;> rfl

/-! ## Reading and setting a core's class -/

namespace Msr

def assoc (s : Msr) (lcore : Nat) : Word := s.mem (.core lcore msrAssoc)

/-- The class a core is associated with. -/
def cos (s : Msr) (lcore : Nat) : Nat := cosOf (s.assoc lcore)

theorem read_assoc (s : Msr) (cpu : CpuInfo) (lcore : Nat) :
    s.read cpu lcore msrAssoc = s.assoc lcore := by
  rw [read, CpuInfo.loc_assoc, assoc]

end Msr

section Steps

variable {p : Platform} {lcore classId c : Nat} {s t : Msr} {e : Err} {u : Unit}

theorem cosAssocGet_ok (h : (cosAssocGet p lcore).run s = .ok c t) :
    c = s.cos lcore ∧ t.mem = s.mem := by
  unfold cosAssocGet at h
  simp only [bind_ok] at h
  obtain ⟨v, s', hr, hv⟩ := h
  obtain ⟨rfl, rfl⟩ := msrRead_ok hr
  cases hv
  exact ⟨by rw [Msr.read_assoc, Msr.cos], rfl⟩

theorem cosAssocSet_ok (h : (cosAssocSet p lcore classId).run s = .ok u t) :
    t.mem = Function.update s.mem (.core lcore msrAssoc) (withCos (s.assoc lcore) classId) := by
  unfold cosAssocSet at h
  simp only [bind_ok] at h
  obtain ⟨v, s', hr, hw⟩ := h
  obtain ⟨rfl, rfl⟩ := msrRead_ok hr
  rw [msrWrite_ok hw, CpuInfo.loc_assoc, Msr.read_assoc]
  rfl

theorem cosAssocGet_run (hp : p.Reliable) (hl : lcore ∈ p.cpu.lcores) :
    (cosAssocGet p lcore).run s = .ok (s.cos lcore) (s.log (.rd lcore msrAssoc)) := by
  unfold cosAssocGet
  rw [bind_of_ok (msrRead_run hp hl), Msr.read_assoc]
  rfl

theorem cosAssocSet_total (hp : p.Reliable) (hl : lcore ∈ p.cpu.lcores) :
    Total (cosAssocSet p lcore classId) :=
  Total.bind (fun _ => ⟨_, _, msrRead_run hp hl⟩) fun _ _ => ⟨_, _, msrWrite_run hp hl⟩

theorem cosAssocSet_error (h : (cosAssocSet p lcore classId).run s = .error e t) :
    t.mem = s.mem := by
  unfold cosAssocSet at h
  simp only [bind_error] at h
  rcases h with h | ⟨v, s', hr, h⟩
  · exact msrRead_error h
  · rw [msrWrite_error h, (msrRead_ok hr).2, Msr.log_mem]

end Steps

/-! ## Setting the class of several cores -/

/-- From `s` to `t` the cores of `l` moved to class `c`, keeping the rest of their association
registers, and no other register changed. -/
structure Moved (l : List Nat) (c : Nat) (s t : Msr) : Prop where
  assoc : ∀ lcore ∈ l, t.assoc lcore = withCos (s.assoc lcore) c
  frame : ∀ loc, (∀ lcore ∈ l, loc ≠ .core lcore msrAssoc) → t.mem loc = s.mem loc

namespace Moved

variable {l : List Nat} {c : Nat} {s t u : Msr}

theorem nil (h : t.mem = s.mem) : Moved [] c s t := ⟨by simp, fun _ _ => by rw [h]⟩

theorem snoc {lcore : Nat} (h : Moved l c s t)
    (hu : u.mem = Function.update t.mem (.core lcore msrAssoc) (withCos (t.assoc lcore) c)) :
    Moved (l ++ [lcore]) c s u := by
  refine ⟨fun k hk => ?_, fun loc hloc => ?_⟩
  · rw [List.mem_append, List.mem_singleton] at hk
    rw [Msr.assoc, hu]
    by_cases hkl : k = lcore
    · subst hkl
      rw [Function.update_self]
      by_cases hmem : k ∈ l
      · rw [h.assoc k hmem, withCos_withCos]
      · have hne : ∀ j ∈ l, Loc.core k msrAssoc ≠ .core j msrAssoc := by
          rintro j hj hkj
          cases hkj
          exact hmem hj
        rw [Msr.assoc, h.frame _ hne, ← Msr.assoc]
    · rw [Function.update_of_ne (by simpa using hkl)]
      exact h.assoc k (hk.resolve_right hkl)
  · rw [hu, Function.update_of_ne (hloc lcore (by simp))]
    exact h.frame loc fun j hj => hloc j (by simp [hj])

theorem of_mem {s' : Msr} (h : Moved l c s t) (hs : s.mem = s'.mem) : Moved l c s' t :=
  ⟨fun k hk => by rw [h.assoc k hk, Msr.assoc, hs, Msr.assoc],
    fun loc hl => by rw [h.frame loc hl, hs]⟩

theorem other (h : Moved l c s t) {k : Nat} (hk : k ∉ l) : t.assoc k = s.assoc k :=
  h.frame _ fun j hj hkj => by
    cases hkj
    exact hk hj

theorem cos (h : Moved l c s t) (hc : c < 2 ^ 32) {lcore : Nat} (hl : lcore ∈ l) :
    t.cos lcore = c := by
  rw [Msr.cos, h.assoc lcore hl, cosOf_withCos _ hc]

theorem cos_other (h : Moved l c s t) {lcore : Nat} (hl : lcore ∉ l) :
    t.cos lcore = s.cos lcore := by
  rw [Msr.cos, h.other hl, Msr.cos]

end Moved

theorem cosAssocSet_forM {p : Platform} {l : List Nat} {c : Nat} {s t : Msr} {u : Unit}
    (h : (l.forM fun lcore => cosAssocSet p lcore c).run s = .ok u t) : Moved l c s t :=
  forM_ok (fun l t => Moved l c s t) h (Moved.nil rfl) fun _ _ _ _ _ _ hm ha =>
    hm.snoc (cosAssocSet_ok ha)

theorem hwAllocRelease_ok {p : Platform} {l : List Nat} {s t : Msr} {u : Unit}
    (h : (hwAllocRelease p l).run s = .ok u t) : Moved l 0 s t :=
  cosAssocSet_forM (tryAll_ok.1 h)

end Pqos
