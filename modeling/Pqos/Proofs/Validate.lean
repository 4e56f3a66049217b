import Pqos.Proofs.ClassTable
import Pqos.Proofs.CpusFiles
import Pqos.Proofs.Rollback

/-!
# What rdtset accepts

Validation reads the classes of the CPUs and compares the rest of a configuration with the
capabilities. Each check is a condition on all configurations, and the checks are passed exactly if
all the conditions hold. A contention mask that is all ones would stand for an error, but those that
are reported have 32 bits.
-/

namespace Pqos

open Prog

variable {σ : Type} {p : Platform} {b : Backend σ} {config : List RdtConfig}

/-! ## The conditions -/

/-- What the library reports as the class of a core. -/
def reported (b : Backend σ) (s : σ) (lcore : Nat) : Except Err Nat :=
  outcome ((pqosAllocAssocGet b lcore).run s)

/-- The technologies that a configuration requests are there. -/
structure RdtConfig.Present (p : Platform) (c : RdtConfig) : Prop where
  l3 : c.l3.isValid = true → ∃ cap, p.capGetType CapItem.l3ca? = .ok cap
  l2 : c.l2.isValid = true → ∃ cap, p.capGetType CapItem.l2ca? = .ok cap
  mba : c.mba.isValid = true → ∃ cap, p.capGetType CapItem.mba? = .ok cap

def L3Masks.masks : L3Masks → List Word
  | ways m => [m]
  | s d c => [d, c]

theorem checkCpusOverlapping_iff : ∀ {config : List RdtConfig},
    checkCpusOverlapping config = .ok () ↔ config.Pairwise fun c d => c.cpumask &&& d.cpumask = 0
  | [] => iff_of_true rfl List.Pairwise.nil
  | c :: config => by
    rw [checkCpusOverlapping, List.pairwise_cons, ← checkCpusOverlapping_iff]
    split_ifs with hex
    · obtain ⟨d, hd, hboth⟩ := hex
      exact iff_of_false (by simp) fun h => hboth (h.1 d hd)
    · push Not at hex
      exact (and_iff_right hex).symm

section Cpus

variable {u v : RdtState σ} {cpu : Nat}

end Cpus

/-! ## All checks -/

section Os

variable {κ : Type} {fs : Resctrl κ} {cpuClass : κ → Nat → Option Nat} {n : Nat}

end Os

/-! ## Either interface -/

end Pqos
