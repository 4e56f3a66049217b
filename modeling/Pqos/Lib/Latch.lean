import Mathlib.Tactic.Common

/-!
# Latches

A latch is set by some steps and stays set until a step clears it.
-/

namespace Latch

variable {set sets clears : Nat → Prop} {n : Nat}

/-- A latch is set when a step has set it and none since has cleared it. -/
theorem set_iff (h0 : ¬ set 0) (hstep : ∀ n, set (n + 1) ↔ sets n ∨ set n ∧ ¬ clears n) :
    set n ↔ ∃ j < n, sets j ∧ ∀ k, j < k → k < n → ¬ clears k := by
  induction n with
  | zero => simp [h0]
  | succ n ih =>
    rw [hstep, ih]
    constructor
    · rintro (hset | ⟨⟨j, hj, hset, hclear⟩, hn⟩)
      · exact ⟨n, Nat.lt_succ_self n, hset, fun k hk hk' => absurd hk' (by omega)⟩
      · refine ⟨j, Nat.lt_succ_of_lt hj, hset, fun k hk hk' => ?_⟩
        rcases Nat.lt_succ_iff_lt_or_eq.1 hk' with hlt | rfl
        · exact hclear k hk hlt
        · exact hn
    · rintro ⟨j, hj, hset, hclear⟩
      rcases Nat.lt_succ_iff_lt_or_eq.1 hj with hlt | rfl
      · exact Or.inr ⟨⟨j, hlt, hset, fun k hk hk' => hclear k hk (Nat.lt_succ_of_lt hk')⟩,
          hclear n hlt (Nat.lt_succ_self n)⟩
      · exact Or.inl hset

end Latch
