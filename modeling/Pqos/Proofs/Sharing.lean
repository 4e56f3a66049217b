import Pqos.Lib.Table
import Pqos.Proofs.Rmid

/-!
# Two users of one register

Allocation keeps a core's class in the high half of its association register, monitoring its RMID
in the low ten bits. Each reads the register, replaces its part and writes it back. However their
settings are interleaved, each finds on every core what it set there last.
-/

namespace Pqos

open Prog Table

/-! ## The two parts of the register -/

theorem rmidOf_withCos (v : Word) (c : Nat) : rmidOf (withCos v c) = rmidOf v := by
  have hmask : (0x3ff#64).getLsbD = fun i => decide (i < 10) := by
    funext i
    rcases Nat.lt_or_ge i 64 with hi | hi
    · revert i
      decide
    · simp [BitVec.getLsbD_of_ge _ _ hi, Nat.le_trans (by decide : 10 ≤ 64) hi]
  unfold rmidOf
  congr 1
  apply BitVec.eq_of_getLsbD_eq
  intro i _
  rw [BitVec.getLsbD_and, BitVec.getLsbD_and, getLsbD_withCos, hmask]
  by_cases hi : i < 10
  · rw [if_pos (Nat.lt_trans hi (by decide))]
  · simp [hi]

theorem cosOf_withRmid (v : Word) (r : Nat) : cosOf (withRmid v r) = cosOf v := by
  have hlow : r &&& 0x3ff < 2 ^ 32 := Nat.lt_of_le_of_lt Nat.and_le_right (by decide)
  unfold cosOf
  congr 1
  apply BitVec.eq_of_getLsbD_eq
  intro i hi
  have hm : (0xffffffff00000000#64).getLsbD (32 + i) = decide (i < 32) := by
    rcases Nat.lt_or_ge i 32 with h | h
    · revert i
      decide
    · simp [BitVec.getLsbD_of_ge, Nat.not_lt.2 h, show 64 ≤ 32 + i by omega]
  have hr : (BitVec.ofNat 64 (r &&& 0x3ff)).getLsbD (32 + i) = false := by
    rw [BitVec.getLsbD_ofNat, Nat.testBit_lt_two_pow (Nat.lt_of_lt_of_le hlow
      (Nat.pow_le_pow_right (by decide) (Nat.le_add_right 32 i))), Bool.and_false]
  unfold withRmid
  rw [BitVec.getLsbD_ushiftRight, BitVec.getLsbD_ushiftRight, BitVec.getLsbD_or,
    BitVec.getLsbD_and, hm, hr, Bool.or_false]
  rcases Nat.lt_or_ge i 32 with h | h
  · simp [h]
  · simp [BitVec.getLsbD_of_ge v (32 + i) (by omega)]

/-! ## Interleaved settings -/

/-- A class or an RMID, set on a core. Both are 32-bit numbers. -/
inductive AssocOp
  | cos (lcore : Nat) (classId : BitVec 32)
  | mon (lcore : Nat) (rmid : BitVec 32)

namespace AssocOp

def lcore : AssocOp → Nat
  | cos lcore _ => lcore
  | mon lcore _ => lcore

def cos? : AssocOp → Option (Nat × BitVec 32)
  | cos lcore classId => some (lcore, classId)
  | mon _ _ => none

def mon? : AssocOp → Option (Nat × BitVec 32)
  | cos _ _ => none
  | mon lcore rmid => some (lcore, rmid)

end AssocOp

def assocOp (p : Platform) : AssocOp → EStateM Err Msr Unit
  | .cos lcore classId => cosAssocSet p lcore classId.toNat
  | .mon lcore rmid => monAssocSet p lcore rmid.toNat

/-- The class that is set on a core last, if any is. -/
def lastCos (lcore : Nat) (ops : List AssocOp) : Option (BitVec 32) :=
  (lastNamed Prod.fst lcore (ops.filterMap AssocOp.cos?)).map Prod.snd

def lastRmid (lcore : Nat) (ops : List AssocOp) : Option (BitVec 32) :=
  (lastNamed Prod.fst lcore (ops.filterMap AssocOp.mon?)).map Prod.snd

/-- What a run of settings makes of the registers. -/
structure Settled (ops : List AssocOp) (s t : Msr) : Prop where
  cos : ∀ lcore, t.cos lcore = ((lastCos lcore ops).map BitVec.toNat).getD (s.cos lcore)
  rmid : ∀ lcore, t.rmid lcore = ((lastRmid lcore ops).map (·.toNat % 1024)).getD (s.rmid lcore)
  frame : ∀ loc, (∀ op ∈ ops, loc ≠ .core op.lcore msrAssoc) → t.mem loc = s.mem loc

section Run

variable {p : Platform} {op : AssocOp} {ops : List AssocOp} {s t : Msr} {u : Unit} {lcore : Nat}

@[simp] theorem lastCos_cos {j : Nat} {c : BitVec 32} :
    lastCos lcore [.cos j c] = if j = lcore then some c else none := by
  by_cases h : j = lcore <;> simp [lastCos, lastNamed, AssocOp.cos?, h]

@[simp] theorem lastCos_mon {j : Nat} {r : BitVec 32} : lastCos lcore [.mon j r] = none := rfl

@[simp] theorem lastRmid_cos {j : Nat} {c : BitVec 32} : lastRmid lcore [.cos j c] = none := rfl

@[simp] theorem lastRmid_mon {j : Nat} {r : BitVec 32} :
    lastRmid lcore [.mon j r] = if j = lcore then some r else none := by
  by_cases h : j = lcore <;> simp [lastRmid, lastNamed, AssocOp.mon?, h]

theorem lastCos_concat :
    lastCos lcore (ops ++ [op]) = (lastCos lcore [op]).or (lastCos lcore ops) := by
  cases op with
  | cos j c =>
    rw [lastCos_cos, lastCos, List.filterMap_append,
      show [AssocOp.cos j c].filterMap AssocOp.cos? = [(j, c)] from rfl, lastNamed_concat]
    split_ifs <;> rfl
  | mon j r =>
    rw [lastCos_mon, lastCos, List.filterMap_append,
      show [AssocOp.mon j r].filterMap AssocOp.cos? = [] from rfl, List.append_nil]
    rfl

theorem lastRmid_concat :
    lastRmid lcore (ops ++ [op]) = (lastRmid lcore [op]).or (lastRmid lcore ops) := by
  cases op with
  | cos j c =>
    rw [lastRmid_cos, lastRmid, List.filterMap_append,
      show [AssocOp.cos j c].filterMap AssocOp.mon? = [] from rfl, List.append_nil]
    rfl
  | mon j r =>
    rw [lastRmid_mon, lastRmid, List.filterMap_append,
      show [AssocOp.mon j r].filterMap AssocOp.mon? = [(j, r)] from rfl, lastNamed_concat]
    split_ifs <;> rfl

theorem assoc_update {mem : Loc → Word} {j k : Nat} {w : Word} (h : t.mem
    = Function.update mem (.core j msrAssoc) w) :
    t.assoc k = if j = k then w else mem (.core k msrAssoc) := by
  rw [Msr.assoc, h]
  split_ifs with hk
  · rw [hk, Function.update_self]
  · exact Function.update_of_ne (by simpa using Ne.symm hk) _ _

/-- A setting changes its own part of its own core's register, and no other register. -/
theorem assocOp_ok (h : (assocOp p op).run s = .ok u t) :
    (∀ k, t.cos k = ((lastCos k [op]).map BitVec.toNat).getD (s.cos k)) ∧
    (∀ k, t.rmid k = ((lastRmid k [op]).map (·.toNat % 1024)).getD (s.rmid k)) ∧
    ∀ loc, loc ≠ .core op.lcore msrAssoc → t.mem loc = s.mem loc := by
  cases op with
  | cos j c =>
    have hmem := cosAssocSet_ok h
    refine ⟨fun k => ?_, fun k => ?_, fun loc hloc => ?_⟩
    · rw [Msr.cos, assoc_update hmem, lastCos_cos]
      split_ifs
      · exact cosOf_withCos _ c.isLt
      · rfl
    · rw [Msr.rmid, assoc_update hmem, lastRmid_cos]
      split_ifs with hk
      · rw [rmidOf_withCos, hk]
        rfl
      · rfl
    · rw [hmem]
      exact Function.update_of_ne hloc _ _
  | mon j r =>
    have hmem := monAssocSet_ok h
    refine ⟨fun k => ?_, fun k => ?_, fun loc hloc => ?_⟩
    · rw [Msr.cos, assoc_update hmem, lastCos_mon]
      split_ifs with hk
      · rw [cosOf_withRmid, hk]
        rfl
      · rfl
    · rw [Msr.rmid, assoc_update hmem, lastRmid_mon]
      split_ifs
      · exact rmidOf_withRmid _ _
      · rfl
    · rw [hmem]
      exact Function.update_of_ne hloc _ _

theorem settled_forM (h : (ops.forM (assocOp p)).run s = .ok u t) : Settled ops s t := by
  refine forM_ok (fun ops t => Settled ops s t) h ⟨fun _ => rfl, fun _ => rfl, fun _ _ => rfl⟩ ?_
  intro pre op post t t' _ hI hop
  obtain ⟨hcos, hrmid, hframe⟩ := assocOp_ok hop
  refine ⟨fun k => ?_, fun k => ?_, fun loc hloc => ?_⟩
  · rw [hcos, hI.cos, lastCos_concat]
    cases lastCos k [op] <;> rfl
  · rw [hrmid, hI.rmid, lastRmid_concat]
    cases lastRmid k [op] <;> rfl
  · rw [hframe loc (hloc op (by simp)), hI.frame loc fun o ho => hloc o (by simp [ho])]

/-- After any interleaving of settings, a core's class is the one set on it last and its RMID the
one set on it last, in ten bits; what was not set is as it was, and so is every other register. -/
theorem assoc_shared (h : (ops.forM (assocOp p)).run s = .ok u t) :
    (∀ lcore c t', (cosAssocGet p lcore).run t = .ok c t' →
      c = ((lastCos lcore ops).map BitVec.toNat).getD (cosOf (s.assoc lcore))) ∧
    (∀ lcore r t', (monAssocGet p lcore).run t = .ok r t' →
      r = ((lastRmid lcore ops).map (·.toNat % 1024)).getD (rmidOf (s.assoc lcore))) ∧
    ∀ loc, (∀ op ∈ ops, loc ≠ .core op.lcore msrAssoc) → t.mem loc = s.mem loc := by
  have hI := settled_forM h
  refine ⟨fun lcore c t' hget => ?_, fun lcore r t' hget => ?_, hI.frame⟩
  · rw [(cosAssocGet_ok hget).1]
    exact hI.cos lcore
  · rw [(monAssocGet_ok hget).1]
    exact hI.rmid lcore

end Run

/-- A class and then an RMID, set on the first core. -/
theorem assoc_shared_two : ∃ t,
    ([AssocOp.cos 0 3, .mon 0 1031].forM (assocOp (smallPlatform []))).run ⟨fun _ => 0, []⟩
      = .ok () t
    ∧ (∀ c t', (cosAssocGet (smallPlatform []) 0).run t = .ok c t' → c = 3)
    ∧ ∀ r t', (monAssocGet (smallPlatform []) 0).run t = .ok r t' → r = 7 := by
  obtain ⟨t, ht⟩ : ∃ t, ([AssocOp.cos 0 3, .mon 0 1031].forM (assocOp (smallPlatform []))).run
      ⟨fun _ => 0, []⟩ = .ok () t := value_eq_some.1 (by decide +kernel)
  obtain ⟨hcos, hrmid, -⟩ := assoc_shared ht
  exact ⟨t, ht, fun c t' h => hcos 0 c t' h, fun r t' h => hrmid 0 r t' h⟩

end Pqos
