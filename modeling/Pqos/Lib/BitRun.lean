import Mathlib.Data.Nat.Bitwise
import Mathlib.Data.Finset.Card
import Mathlib.Order.Interval.Finset.Nat

/-!
# Runs of bits

A number is contiguous when its bits are those of an interval. Of any number but 0 there is a lowest
run, and the number is contiguous when it has no bit outside of that run.
-/

namespace BitRun

/-- The bits of `n` are those from `lo` to below `hi`. -/
def Contiguous (n : Nat) : Prop := ∃ lo hi, lo < hi ∧ ∀ i, n.testBit i = decide (lo ≤ i ∧ i < hi)

/-- The lowest bits of `n` are those from `lo` to below `hi`, and the next is not set. -/
structure LowestRun (n lo hi : Nat) : Prop where
  lt : lo < hi
  below : ∀ i < lo, n.testBit i = false
  run : ∀ i, lo ≤ i → i < hi → n.testBit i = true
  stop : n.testBit hi = false

/-- The bits of `n` below `w`. -/
def bits (w n : Nat) : Finset Nat := {i ∈ Finset.range w | n.testBit i = true}

section

variable {w n lo hi : Nat}

theorem mem_bits (hn : n < 2 ^ w) {i : Nat} : i ∈ bits w n ↔ n.testBit i = true := by
  unfold bits
  rw [Finset.mem_filter, Finset.mem_range, and_iff_right_iff_imp]
  intro h
  by_contra hge
  rw [Nat.testBit_lt_two_pow (Nat.lt_of_lt_of_le hn (Nat.pow_le_pow_right Nat.two_pos (by omega)))]
    at h
  cases h

theorem exists_lowestRun (h : n ≠ 0) : ∃ lo hi, LowestRun n lo hi := by
  have hbit : ∃ i, n.testBit i = true := Nat.exists_testBit_of_ne_zero h
  have hstop : ∃ i, Nat.find hbit < i ∧ n.testBit i = false :=
    ⟨Nat.find hbit + 1 + n, by omega, Nat.testBit_lt_two_pow
      (Nat.lt_of_lt_of_le Nat.lt_two_pow_self (Nat.pow_le_pow_right Nat.two_pos (by omega)))⟩
  refine ⟨Nat.find hbit, Nat.find hstop, (Nat.find_spec hstop).1, fun i hi => ?_,
    fun i hlo hhi => ?_, (Nat.find_spec hstop).2⟩
  · simpa using Nat.find_min hbit hi
  · rcases Nat.eq_or_lt_of_le hlo with rfl | hlt
    · exact Nat.find_spec hbit
    · have hmin := Nat.find_min hstop hhi
      simpa [hlt] using hmin

theorem exists_lowestRun_toNat {m : BitVec w} (h : m ≠ 0#w) : ∃ lo hi, LowestRun m.toNat lo hi :=
  exists_lowestRun fun h0 => h (BitVec.eq_of_toNat_eq (by simpa using h0))

theorem LowestRun.hi_le (h : LowestRun n lo hi) (hn : n < 2 ^ w) : hi ≤ w := by
  have hbit := (mem_bits hn).2 (h.run (hi - 1) (by have := h.lt; omega) (by have := h.lt; omega))
  unfold bits at hbit
  rw [Finset.mem_filter, Finset.mem_range] at hbit
  omega

theorem Contiguous.ne_zero (h : Contiguous n) : n ≠ 0 := by
  rintro rfl
  obtain ⟨lo, hi, hlt, hbits⟩ := h
  have hlo := hbits lo
  rw [Nat.zero_testBit, decide_eq_true ⟨Nat.le_refl lo, hlt⟩] at hlo
  cases hlo

/-- The bits of a contiguous number are those of its lowest run. -/
theorem LowestRun.contiguous_iff (h : LowestRun n lo hi) :
    Contiguous n ↔ ∀ i, n.testBit i = decide (lo ≤ i ∧ i < hi) := by
  refine ⟨?_, fun hbits => ⟨lo, hi, h.lt, hbits⟩⟩
  rintro ⟨lo', hi', hlt', hbits⟩
  -- the interval starts with the lowest bit and ends where the first is missing
  have hlo : lo' = lo := by
    by_contra hne
    rcases Nat.lt_or_gt_of_ne hne with hl | hl
    · have hb := h.below lo' hl
      rw [hbits, decide_eq_true ⟨Nat.le_refl lo', hlt'⟩] at hb
      cases hb
    · have hb := h.run lo (Nat.le_refl lo) h.lt
      rw [hbits, decide_eq_false (by omega)] at hb
      cases hb
  have hhi : hi' = hi := by
    have hb := h.stop
    rw [hbits, decide_eq_false_iff_not] at hb
    have hlast := h.run (hi - 1) (by have := h.lt; omega) (by have := h.lt; omega)
    rw [hbits, decide_eq_true_iff] at hlast
    have := h.lt
    omega
  rw [← hlo, ← hhi]
  exact hbits

/-- A number is contiguous if nothing is left of it above its lowest run. -/
theorem LowestRun.contiguous_iff_above (h : LowestRun n lo hi) :
    Contiguous n ↔ n >>> hi = 0 := by
  rw [h.contiguous_iff]
  constructor
  · intro hbits
    refine Nat.eq_of_testBit_eq fun i => ?_
    rw [Nat.testBit_shiftRight, hbits, Nat.zero_testBit, decide_eq_false (by omega)]
  · intro habove i
    rcases Nat.lt_or_ge i lo with hi' | hlo
    · rw [h.below i hi', decide_eq_false (by omega)]
    rcases Nat.lt_or_ge i hi with hi' | hge
    · rw [h.run i hlo hi', decide_eq_true ⟨hlo, hi'⟩]
    · have hbit := congrArg (Nat.testBit · (i - hi)) habove
      simp only [Nat.testBit_shiftRight, Nat.zero_testBit, Nat.add_sub_cancel' hge] at hbit
      rw [hbit, decide_eq_false (by omega)]

/-- A number has as many bits as its lowest run exactly if it has no others. -/
theorem LowestRun.card_iff (h : LowestRun n lo hi) (hn : n < 2 ^ w) :
    (bits w n).card = hi - lo ↔ Contiguous n := by
  have hsub : Finset.Ico lo hi ⊆ bits w n := fun i hi => by
    rw [Finset.mem_Ico] at hi
    exact (mem_bits hn).2 (h.run i hi.1 hi.2)
  rw [h.contiguous_iff]
  constructor
  · intro hcard i
    have heq : Finset.Ico lo hi = bits w n :=
      Finset.eq_of_subset_of_card_le hsub (by rw [hcard, Nat.card_Ico])
    rw [Bool.eq_iff_iff, ← mem_bits hn, ← heq, Finset.mem_Ico, decide_eq_true_iff]
  · intro hbits
    have heq : bits w n = Finset.Ico lo hi := by
      ext i
      rw [mem_bits hn, hbits, decide_eq_true_iff, Finset.mem_Ico]
    rw [heq, Nat.card_Ico]

/-- The contiguous numbers of `w` bits are blocks of ones that were shifted. -/
theorem contiguous_iff_ones (hn : n < 2 ^ w) :
    Contiguous n ↔ ∃ k s, 1 ≤ k ∧ k + s ≤ w ∧ n = (2 ^ k - 1) * 2 ^ s := by
  constructor
  · rintro ⟨lo, hi, hlt, hbits⟩
    have hlast : n.testBit (hi - 1) = true := by
      rw [hbits]
      exact decide_eq_true (by omega)
    have hle : hi - 1 < w := by
      rw [← mem_bits hn, bits, Finset.mem_filter, Finset.mem_range] at hlast
      exact hlast.1
    refine ⟨hi - lo, lo, by omega, by omega, Nat.eq_of_testBit_eq fun i => ?_⟩
    rw [hbits, Nat.testBit_mul_two_pow, Nat.testBit_two_pow_sub_one, ← Bool.decide_and]
    exact decide_eq_decide.2 (by omega)
  · rintro ⟨k, s, hk, -, rfl⟩
    refine ⟨s, s + k, by omega, fun i => ?_⟩
    rw [Nat.testBit_mul_two_pow, Nat.testBit_two_pow_sub_one, ← Bool.decide_and]
    exact decide_eq_decide.2 (by omega)

/-- `n &&& (n - 1)` is `n` without its lowest bit. -/
theorem LowestRun.testBit_land_pred (h : LowestRun n lo hi) (i : Nat) :
    (n &&& (n - 1)).testBit i = (n.testBit i && decide (i ≠ lo)) := by
  -- below `lo` there is nothing, so subtracting 1 changes no bit above it
  have hmod : n % 2 ^ (lo + 1) = 2 ^ lo := by
    refine Nat.eq_of_testBit_eq fun j => ?_
    rw [Nat.testBit_mod_two_pow, Nat.testBit_two_pow]
    rcases Nat.lt_trichotomy j lo with hj | rfl | hj
    · rw [h.below j hj, decide_eq_false (by omega : ¬ lo = j), Bool.and_false]
    · rw [h.run j (Nat.le_refl j) h.lt, decide_eq_true (Nat.lt_succ_self j), decide_eq_true rfl]
      rfl
    · rw [decide_eq_false (by omega : ¬ j < lo + 1), decide_eq_false (by omega : ¬ lo = j),
        Bool.false_and]
  have hsplit := Nat.div_add_mod n (2 ^ (lo + 1))
  rw [hmod] at hsplit
  have hpos : 0 < 2 ^ lo := Nat.two_pow_pos lo
  have hpred : n - 1 = 2 ^ (lo + 1) * (n / 2 ^ (lo + 1)) + (2 ^ lo - 1) := by omega
  have hlow : 2 ^ lo - 1 < 2 ^ (lo + 1) := by
    rw [Nat.pow_succ]
    omega
  rw [Nat.testBit_land, hpred, Nat.testBit_two_pow_mul_add _ hlow]
  rcases Nat.lt_trichotomy i lo with hi | rfl | hi
  · rw [h.below i hi, Bool.false_and, Bool.false_and]
  · rw [if_pos (Nat.lt_succ_self i), Nat.testBit_two_pow_sub_one]
    simp
  · rw [if_neg (by omega), decide_eq_true (by omega : i ≠ lo), Bool.and_true,
      Nat.testBit_div_two_pow, Nat.sub_add_cancel (by omega), Bool.and_self]

theorem LowestRun.bits_land_pred (h : LowestRun n lo hi) (hn : n < 2 ^ w) :
    (bits w (n &&& (n - 1))).card + 1 = (bits w n).card := by
  have hmem : lo ∈ bits w n := (mem_bits hn).2 (h.run lo (Nat.le_refl lo) h.lt)
  have heq : bits w (n &&& (n - 1)) = (bits w n).erase lo := by
    ext i
    rw [mem_bits (Nat.lt_of_le_of_lt Nat.and_le_left hn), Finset.mem_erase, mem_bits hn,
      h.testBit_land_pred, Bool.and_eq_true, decide_eq_true_iff, and_comm]
  rw [heq, Finset.card_erase_of_mem hmem]
  have := Finset.card_pos.2 ⟨lo, hmem⟩
  omega

theorem card_bits_le : (bits w n).card ≤ w := by
  have h := Finset.card_filter_le (Finset.range w) fun i => n.testBit i = true
  rwa [Finset.card_range] at h

end

end BitRun
