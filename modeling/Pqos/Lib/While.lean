import Mathlib.Logic.Function.Iterate
import Mathlib.Tactic.Common

/-!
# While loops

A loop goes round as long as its condition holds, for ever if need be. That a loop is left is a
relation between the state it is entered in and the one it is left in, and running it with a bound
on its rounds is a way to find that one. A loop that looks at nothing but a counter which wraps
around is left within one turn of the counter or not at all.
-/

namespace While

section

variable {σ : Type} (cond : σ → Bool) (body : σ → σ)

/-- The loop, entered in the first state, is left in the second. -/
inductive Ends : σ → σ → Prop
  | leave {s : σ} (h : cond s = false) : Ends s s
  | again {s t : σ} (h : cond s = true) (ht : Ends (body s) t) : Ends s t

/-- The loop with no more than so many rounds. -/
def run : Nat → σ → Option σ
  | 0, s => if cond s then none else some s
  | n + 1, s => if cond s then run n (body s) else some s

variable {cond body} {s t t' : σ} {n : Nat}

theorem Ends.unique (h : Ends cond body s t) (h' : Ends cond body s t') : t = t' := by
  induction h with
  | leave hs =>
    cases h' with
    | leave => rfl
    | again hs' => cases hs.symm.trans hs'
  | again hs _ ih =>
    cases h' with
    | leave hs' => cases hs.symm.trans hs'
    | again _ ht' => exact ih ht'

/-- What every round keeps holds where the loop is left, and its condition does not. -/
theorem Ends.inv {I : σ → Prop} (h : Ends cond body s t)
    (hbody : ∀ s, I s → cond s = true → I (body s)) (hs : I s) : I t ∧ cond t = false := by
  induction h with
  | leave hc => exact ⟨hs, hc⟩
  | again hc _ ih => exact ih (hbody _ hs hc)

theorem ends_of_run (h : run cond body n s = some t) : Ends cond body s t := by
  induction n generalizing s with
  | zero =>
    unfold run at h
    split_ifs at h with hc
    cases h
    exact .leave (by simpa using hc)
  | succ n ih =>
    unfold run at h
    split_ifs at h with hc
    · exact .again hc (ih h)
    · cases h
      exact .leave (by simpa using hc)

/-- The bound is reached when the condition holds in every state up to there. -/
theorem run_eq_none (h : run cond body n s = none) : ∀ k ≤ n, cond (body^[k] s) = true := by
  induction n generalizing s with
  | zero =>
    unfold run at h
    split_ifs at h with hc
    intro k hk
    rwa [Nat.le_zero.1 hk]
  | succ n ih =>
    unfold run at h
    split_ifs at h with hc
    rintro (_ | k) hk
    · exact hc
    · exact ih h k (by omega)

theorem Ends.exists_false (h : Ends cond body s t) : ∃ k, cond (body^[k] s) = false := by
  induction h with
  | leave hc => exact ⟨0, hc⟩
  | again _ _ ih =>
    obtain ⟨k, hk⟩ := ih
    exact ⟨k + 1, hk⟩

/-- A condition on a counter that wraps around at `n` does not hold for ever if and only if the
loop is left within `n` rounds. -/
theorem ends_iff_run {c : σ → Nat} {P : Nat → Bool} (hn : 0 < n)
    (hcond : ∀ s, cond s = P (c s % n)) (hbody : ∀ s, c (body s) = c s + 1) :
    Ends cond body s t ↔ run cond body n s = some t := by
  refine ⟨fun h => ?_, ends_of_run⟩
  rcases hrun : run cond body n s with _ | u
  · obtain ⟨k, hk⟩ := h.exists_false
    have hcount : ∀ k, c (body^[k] s) = c s + k := by
      intro k
      induction k with
      | zero => rfl
      | succ k ih => rw [Function.iterate_succ_apply', hbody, ih, Nat.add_assoc]
    have hsame := run_eq_none hrun (k % n) (Nat.le_of_lt (Nat.mod_lt k hn))
    rw [hcond, hcount, Nat.add_mod, Nat.mod_mod, ← Nat.add_mod, ← hcount, ← hcond, hk] at hsame
    cases hsame
  · rw [h.unique (ends_of_run hrun)]

end

end While
