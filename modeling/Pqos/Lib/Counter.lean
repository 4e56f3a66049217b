import Mathlib.Algebra.BigOperators.Group.List.Basic
import Mathlib.Data.Int.ModEq
import Mathlib.Tactic.Ring

/-!
# Counters that wrap

A counter of modulus `m` shows what it has counted modulo `m`. Of several such counters that each
advance by less than `m`, the sum of what they show moves by the sum of their advances, less `m` for
every one that wraps.
-/

namespace Counter

variable {m : Nat}

/-- What counters show in all. -/
def shown (m : Nat) (counts : List Nat) : Nat := (counts.map (· % m)).sum

/-- Each counter advanced, and by less than its modulus. -/
def Advance (m : Nat) : List Nat → List Nat → Prop :=
  List.Forall₂ fun c c' => c ≤ c' ∧ c' < c + m

/-- By how much counters advanced in all. -/
def increment (counts counts' : List Nat) : Nat :=
  (List.zipWith (fun c c' => c' - c) counts counts').sum

/-- How many counters show less than before. -/
def wraps (m : Nat) (counts counts' : List Nat) : Nat :=
  (counts.zip counts').countP fun x => x.2 % m < x.1 % m

theorem shown_step {c c' : Nat} (h : c ≤ c') (h' : c' < c + m) :
    c' % m + (if c' % m < c % m then m else 0) = c % m + (c' - c) := by
  have hm : 0 < m := by omega
  obtain ⟨d, rfl⟩ := Nat.exists_eq_add_of_le h
  have hd : d < m := by omega
  have hc := Nat.mod_lt c hm
  rw [Nat.add_mod, Nat.mod_eq_of_lt hd, Nat.add_sub_cancel_left]
  by_cases hw : c % m + d < m
  · rw [Nat.mod_eq_of_lt hw, if_neg (by omega)]
    omega
  · rw [Nat.mod_eq_sub_mod (by omega), Nat.mod_eq_of_lt (by omega), if_pos (by omega)]
    omega

/-- A sum of wrapping counters is off by the modulus for every counter that wrapped. -/
theorem shown_advance {counts counts' : List Nat} (h : Advance m counts counts') :
    shown m counts' + m * wraps m counts counts'
      = shown m counts + increment counts counts' := by
  induction h with
  | nil => rfl
  | cons hc _ ih =>
    have hstep := shown_step hc.1 hc.2
    unfold shown wraps increment at *
    simp only [List.map_cons, List.sum_cons, List.zip_cons_cons, List.countP_cons,
      List.zipWith_cons_cons, decide_eq_true_eq]
    split_ifs at hstep ⊢ with hw
    · rw [Nat.mul_add, Nat.mul_one]
      omega
    · rw [Nat.add_zero]
      omega

theorem shown_sub {counts counts' : List Nat} (h : Advance m counts counts') :
    (shown m counts' : ℤ) - shown m counts
      = increment counts counts' - m * wraps m counts counts' := by
  have hz : (shown m counts' : ℤ) + m * wraps m counts counts'
      = shown m counts + increment counts counts' := by exact_mod_cast shown_advance h
  rw [sub_eq_sub_iff_add_eq_add, hz, add_comm]

/-- A residue that is off by `e` is right if and only if `e` does not show and there is room. -/
theorem eq_iff_of_modEq {n x y : Nat} {e : ℤ} (hx : x < n) (h : (x : ℤ) ≡ y - e [ZMOD n]) :
    x = y ↔ y < n ∧ (n : ℤ) ∣ e := by
  constructor
  · rintro rfl
    refine ⟨hx, ?_⟩
    have := h.symm.dvd
    rwa [sub_sub_cancel] at this
  · rintro ⟨hy, he⟩
    have hxy : (x : ℤ) ≡ y [ZMOD n] := by
      refine h.trans (Int.modEq_iff_dvd.2 ?_)
      rwa [sub_sub_cancel]
    have hmod := Int.natCast_modEq_iff.1 hxy
    rwa [Nat.ModEq, Nat.mod_eq_of_lt hx, Nat.mod_eq_of_lt hy] at hmod

end Counter
