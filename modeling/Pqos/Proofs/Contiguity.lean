import Pqos.Api
import Pqos.Proofs.RdtMask
import Pqos.Lib.While

/-!
# Two tests of contiguity

The library shifts a mask to the right past its zeros and then past its ones. rdtset compares the
length of the first run with the number of all ones. The loops of both have no bound of their own,
and are left all the same, and both tests accept the masks that are one block of ones.
-/

namespace Pqos

open BitRun While

/-! ## The tests as their loops run them -/

/-- The loop that shifts bits out at the right as long as they are `b`. -/
abbrev ShiftLoop (b : Bool) : Word → Word → Prop :=
  Ends (fun m => m.getLsbD 0 == b) (· >>> 1)

/-- The library's `is_contiguous` returns, with a result. -/
inductive Contiguity : Word → Bool → Prop
  | zero : Contiguity 0#64 false
  | shifted {bitmask m m' : Word} (h : bitmask ≠ 0#64) (hzeros : ShiftLoop false bitmask m)
      (hones : ShiftLoop true m m') : Contiguity bitmask (decide (m' = 0#64))

namespace Rdt

/-- The loop of `bits_count`, on what is left of the mask and the count. -/
abbrev CountLoop : Word × Nat → Word × Nat → Prop :=
  Ends (fun s => decide (s.1 ≠ 0)) fun s => (s.1 &&& (s.1 - 1), s.2 + 1)

/-- rdtset's `is_contiguous` returns, with a result. -/
inductive Contiguity : Word → Bool → Prop
  | zero : Contiguity 0 false
  | counted {bitmask m : Word} {count : Nat} (h : bitmask ≠ 0)
      (hcount : CountLoop (bitmask, 0) (m, count)) :
      Contiguity bitmask (decide (count = firstRun bitmask 0 0 64))

end Rdt

/-! ## The library's test -/

section Library

variable {m : Word} {b : Bool} {k n lo hi : Nat}

/-- As many bits are shifted out as are `b` before the first that is not. -/
theorem shiftOut_eq (hbits : ∀ i < k, m.getLsbD i = b) (hstop : m.getLsbD k ≠ b) (hk : k ≤ n) :
    shiftOut b n m = m >>> k := by
  induction n generalizing m k with
  | zero =>
    obtain rfl := Nat.le_zero.1 hk
    rw [shiftOut, BitVec.ushiftRight_zero]
  | succ n ih =>
    rw [shiftOut]
    cases k with
    | zero => rw [if_neg hstop, BitVec.ushiftRight_zero]
    | succ k =>
      rw [if_pos (hbits 0 (Nat.succ_pos k)), ih (k := k) _ _ (by omega), ← BitVec.shiftRight_add,
        Nat.add_comm]
      · intro i hi
        rw [BitVec.getLsbD_ushiftRight]
        exact hbits _ (by omega)
      · rwa [BitVec.getLsbD_ushiftRight, Nat.add_comm]

/-- The bounded loop is left where the unbounded one is, if it stops at a bit that is not `b`. -/
theorem shiftOut_ends (h : (shiftOut b n m).getLsbD 0 ≠ b) : ShiftLoop b m (shiftOut b n m) := by
  induction n generalizing m with
  | zero => exact .leave (by simpa [shiftOut] using h)
  | succ n ih =>
    rw [shiftOut] at h ⊢
    split_ifs at h ⊢ with hb
    · exact .again (by simpa using hb) (ih h)
    · exact .leave (by simpa using hb)

variable (h : LowestRun m.toNat lo hi)

include h

theorem shiftOut_zeros : shiftOut false 64 m = m >>> lo := by
  have hlt := h.lt
  have hle : hi ≤ 64 := h.hi_le m.isLt
  have hbit : m.getLsbD lo = true := h.run lo (Nat.le_refl lo) hlt
  exact shiftOut_eq h.below (by rw [hbit]; decide) (by omega)

theorem shiftOut_ones : shiftOut true 64 (m >>> lo) = m >>> hi := by
  have hlt := h.lt
  have hle : hi ≤ 64 := h.hi_le m.isLt
  have hstop : m.getLsbD hi = false := h.stop
  rw [shiftOut_eq (k := hi - lo), ← BitVec.shiftRight_add, Nat.add_sub_cancel' hlt.le]
  · intro i hi'
    rw [BitVec.getLsbD_ushiftRight]
    exact h.run _ (by omega) (by omega)
  · rw [BitVec.getLsbD_ushiftRight, Nat.add_sub_cancel' hlt.le, hstop]
    decide
  · omega

end Library

theorem contiguity_iff (bitmask : Word) (r : Bool) :
    Contiguity bitmask r ↔ r = isContiguous bitmask := by
  unfold isContiguous
  by_cases hm : bitmask = 0#64
  · subst hm
    rw [if_pos rfl]
    refine ⟨fun h => ?_, fun hr => hr ▸ .zero⟩
    cases h with
    | zero => rfl
    | shifted h => exact absurd rfl h
  · rw [if_neg hm]
    obtain ⟨lo, hi, hrun⟩ := exists_lowestRun_toNat hm
    have hlo : bitmask.getLsbD lo = true := hrun.run lo (Nat.le_refl lo) hrun.lt
    have hhi : bitmask.getLsbD hi = false := hrun.stop
    have hzeros : ShiftLoop false bitmask (shiftOut false 64 bitmask) := by
      refine shiftOut_ends ?_
      rw [shiftOut_zeros hrun, BitVec.getLsbD_ushiftRight, Nat.add_zero, hlo]
      decide
    have hones : ShiftLoop true (shiftOut false 64 bitmask)
        (shiftOut true 64 (shiftOut false 64 bitmask)) := by
      refine shiftOut_ends ?_
      rw [shiftOut_zeros hrun, shiftOut_ones hrun, BitVec.getLsbD_ushiftRight, Nat.add_zero, hhi]
      decide
    constructor
    · intro h
      cases h with
      | zero => exact absurd rfl hm
      | shifted _ hz ho =>
        obtain rfl := hz.unique hzeros
        rw [ho.unique hones]
    · rintro rfl
      exact .shifted hm hzeros hones

theorem isContiguous_iff (m : Word) : isContiguous m = true ↔ Contiguous m.toNat := by
  unfold isContiguous
  split_ifs with hm
  · subst hm
    exact ⟨fun h => h.elim, fun h => absurd rfl h.ne_zero⟩
  · obtain ⟨lo, hi, hrun⟩ := exists_lowestRun_toNat hm
    rw [decide_eq_true_iff, shiftOut_zeros hrun, shiftOut_ones hrun, hrun.contiguous_iff_above,
      ← BitVec.toNat_inj, BitVec.toNat_ushiftRight]
    rfl

/-! ## rdtset's test -/

namespace Rdt

theorem bitsCountFrom_ends {m : Word} {count n : Nat} (h : (bits 64 m.toNat).card ≤ n) :
    CountLoop (m, count) (0, count + bitsCountFrom n m) := by
  induction n generalizing m count with
  | zero =>
    have hm : m = 0 := by
      by_contra hm
      have := bits_land_pred hm
      omega
    subst hm
    exact .leave rfl
  | succ n ih =>
    rw [bitsCountFrom]
    split_ifs with hm
    · subst hm
      exact .leave rfl
    · have hcard := bits_land_pred hm
      have hloop : CountLoop (m &&& (m - 1), count + 1)
          (0, count + 1 + bitsCountFrom n (m &&& (m - 1))) := ih (by omega)
      rw [show count + (bitsCountFrom n (m &&& (m - 1)) + 1)
        = count + 1 + bitsCountFrom n (m &&& (m - 1)) by omega]
      exact .again (by simpa using hm) hloop

theorem contiguity_iff (bitmask : Word) (r : Bool) :
    Contiguity bitmask r ↔ r = isContiguous bitmask := by
  have hcount : CountLoop (bitmask, 0) (0, 0 + bitsCount bitmask) := bitsCountFrom_ends card_bits_le
  rw [Nat.zero_add] at hcount
  unfold isContiguous
  by_cases hm : bitmask = 0
  · subst hm
    refine ⟨fun h => ?_, fun hr => hr ▸ .zero⟩
    cases h with
    | zero => rfl
    | counted h => exact absurd rfl h
  · rw [Bool.decide_and, decide_eq_true hm, Bool.true_and]
    constructor
    · intro h
      cases h with
      | zero => exact absurd rfl hm
      | counted _ hc => rw [(Prod.mk.inj (hc.unique hcount)).2]
    · rintro rfl
      exact .counted hm hcount

end Rdt

/-! ## Both tests -/

/-- Both tests return, for every mask, and accept the blocks of ones. -/
theorem contiguityTests_agree (m : Word) :
    (∀ r, Contiguity m r ↔ r = isContiguous m) ∧ (∀ r, Rdt.Contiguity m r ↔ r = Rdt.isContiguous m)
      ∧ (isContiguous m = true ↔ ∃ k s, 1 ≤ k ∧ k + s ≤ 64 ∧ m.toNat = (2 ^ k - 1) * 2 ^ s)
      ∧ (Rdt.isContiguous m = true ↔ ∃ k s, 1 ≤ k ∧ k + s ≤ 64
        ∧ m.toNat = (2 ^ k - 1) * 2 ^ s) := by
  have hones := contiguous_iff_ones m.isLt
  exact ⟨contiguity_iff m, Rdt.contiguity_iff m, (isContiguous_iff m).trans hones,
    (Rdt.isContiguous_iff m).trans hones⟩

end Pqos
