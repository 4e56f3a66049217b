import Pqos.Isolation
import Pqos.Lib.Latch

/-!
# When the isolation loop adjusts the quotas

The trigger is a latch: a rise to a count that carries load sets it, and a round whose count is that
of the round before clears it and adjusts the quotas. The load is not looked at again there.
-/

namespace Pqos

variable (lines : Nat → Option Int)

/-- The count of the round before; where nothing is printed, the count stays. -/
def previousCount : Nat → Int
  | 0 => 0
  | n + 1 => (lines n).getD (previousCount n)

/-- The count that a round observes. -/
def taskCount (n : Nat) : Int := previousCount lines (n + 1)

/-- The count has changed by more than 5. -/
def Jumps (n : Nat) : Prop := 5 < (taskCount lines n - previousCount lines n).natAbs

/-- The count has changed by more than 5, to one that carries load. -/
def Rises (n : Nat) : Prop := Jumps lines n ∧ 10 < taskCount lines n + tasksOffset

/-- The count has not changed. -/
def Stable (n : Nat) : Prop := taskCount lines n = previousCount lines n

/-- A call of the loop is one for the load of an unchanged count, and there was a big change since
the call before. -/
structure CallSound (n : Nat) (call : Int × Int) : Prop where
  args : call = (0, taskCount lines n + tasksOffset)
  load : 10 < call.2
  stable : Stable lines n
  change : ∃ j < n, Jumps lines j ∧ ∀ i, j ≤ i → i < n → loopCall lines i = none

variable {lines} {n : Nat} {call : Int × Int}

theorem Rises.not_stable (h : Rises lines n) : ¬ Stable lines n := by
  intro hstable
  have hjump := h.1
  unfold Jumps at hjump
  rw [hstable] at hjump
  omega

theorem loopState_counts (n : Nat) : (loopState lines n).lastTasks = previousCount lines n
    ∧ (loopState lines n).curTaskCount = previousCount lines n := by
  induction n with
  | zero => exact ⟨rfl, rfl⟩
  | succ n ih =>
    rw [loopState, previousCount, ← ih.2]
    unfold isolationRound
    dsimp only
    split_ifs <;> exact ⟨rfl, rfl⟩

theorem count_eq (n : Nat) :
    (lines n).getD (loopState lines n).curTaskCount = taskCount lines n := by
  rw [(loopState_counts n).2]
  rfl

theorem loopState_trigger (n : Nat) : (loopState lines (n + 1)).adjustTrigger = true
    ↔ Rises lines n ∨ (loopState lines n).adjustTrigger = true ∧ ¬ Stable lines n := by
  rw [loopState]
  unfold isolationRound
  dsimp only
  rw [count_eq, (loopState_counts n).1]
  split_ifs with hchanged hrises hunset
  · exact iff_of_true rfl (Or.inl hrises)
  · exact ⟨fun h => Or.inr ⟨h, hchanged⟩, fun h => (h.resolve_left hrises).1⟩
  · have hstable : Stable lines n := not_not.1 hchanged
    have hrises : ¬ Rises lines n := fun h => h.not_stable hstable
    simp [hunset, hrises]
  · have hstable : Stable lines n := not_not.1 hchanged
    have hrises : ¬ Rises lines n := fun h => h.not_stable hstable
    simp [hstable, hrises]

theorem loopCall_eq (n : Nat) : loopCall lines n = some call
    ↔ Stable lines n ∧ (loopState lines n).adjustTrigger = true
      ∧ call = (0, taskCount lines n + tasksOffset) := by
  unfold loopCall isolationRound
  dsimp only
  rw [count_eq, (loopState_counts n).1]
  split_ifs with hchanged hrises hunset
  · simp [Stable, hchanged]
  · simp [Stable, hchanged]
  · simp [hunset]
  · simp [Stable, not_not.1 hchanged, hunset, eq_comm]

/-- The trigger is set if there was a rise and no unchanged count since. -/
theorem trigger_iff (n : Nat) : (loopState lines n).adjustTrigger = true
    ↔ ∃ j < n, Rises lines j ∧ ∀ k, j < k → k < n → ¬ Stable lines k :=
  @Latch.set_iff (fun n => (loopState lines n).adjustTrigger = true) _ _ n Bool.false_ne_true
    loopState_trigger

/-- The calls of a run are sound if and only if the first unchanged count after each rise carries
load, as the count it rose to did. -/
theorem loopCalls_sound_iff (lines : Nat → Option Int) (m : Nat) :
    (∀ n < m, ∀ call, loopCall lines n = some call → CallSound lines n call)
      ↔ ∀ j n, j < n → n < m → Rises lines j → (∀ k, j < k → k < n → ¬ Stable lines k) →
        Stable lines n → 10 < taskCount lines n + tasksOffset := by
  constructor
  · intro hsound j n hj hn hrises hbetween hstable
    have htrigger := (trigger_iff n).2 ⟨j, hj, hrises, hbetween⟩
    exact (hsound n hn _ ((loopCall_eq n).2 ⟨hstable, htrigger, rfl⟩)).load
  · intro hload n hn call hcall
    obtain ⟨hstable, htrigger, rfl⟩ := (loopCall_eq n).1 hcall
    obtain ⟨j, hj, hrises, hbetween⟩ := (trigger_iff n).1 htrigger
    refine ⟨rfl, hload j n hj hn hrises hbetween hstable, hstable, j, hj, hrises.1, ?_⟩
    -- no count before was unchanged since the rise
    intro i hji hin
    by_contra hne
    obtain ⟨call, hcall⟩ := Option.ne_none_iff_exists'.1 hne
    have hi := ((loopCall_eq i).1 hcall).1
    rcases Nat.eq_or_lt_of_le hji with rfl | hlt
    · exact hrises.not_stable hi
    · exact hbetween i hlt hin hi

/-- Counts that rise to 100 and then fall to 20, where they stay. -/
def riseThenFall (n : Nat) : Option Int := some (if n = 0 then 100 else 20)

/-- The quotas are adjusted for a load of -34. -/
theorem loopCalls_unsound :
    ¬ ∀ n < 3, ∀ call, loopCall riseThenFall n = some call → CallSound riseThenFall n call := by
  intro hsound
  have hload := (hsound 2 (by decide) (0, -34) (by decide)).load
  exact absurd hload (by decide)

end Pqos
