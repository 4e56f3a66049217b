import Pqos.Proofs.Assoc
import Pqos.Proofs.Tables

/-!
# The full reset

Each phase of the reset fills a set of registers with one value, and the sets of different phases
are disjoint, so what a register holds at the end is what its own phase put there.
-/

namespace Pqos

open Prog

variable {p : Platform}

/-! ## Filling registers -/

/-- From `s` to `t` the registers of `T` were set to `v`, and no other changed. -/
structure Fills (T : Loc → Prop) (v : Word) (s t : Msr) : Prop where
  inside : ∀ l, T l → t.mem l = v
  outside : ∀ l, ¬ T l → t.mem l = s.mem l

namespace Fills

variable {T T' : Loc → Prop} {v : Word} {s t u : Msr}

theorem congr (h : Fills T v s t) (hT : ∀ l, T l ↔ T' l) : Fills T' v s t := by
  rwa [← show T = T' from funext fun l => propext (hT l)]

theorem seq (h : Fills T v s t) (h' : Fills T' v t u) : Fills (fun l => T l ∨ T' l) v s u := by
  refine ⟨fun l hl => ?_, fun l hl => ?_⟩
  · by_cases hl' : T' l
    · exact h'.inside l hl'
    · rw [h'.outside l hl']
      exact h.inside l (hl.resolve_right hl')
  · rw [h'.outside l fun hl' => hl (Or.inr hl'), h.outside l fun hl' => hl (Or.inl hl')]

theorem forM {α : Type} {f : α → EStateM Err Msr Unit} {T : α → Loc → Prop} {l : List α}
    (hf : ∀ a ∈ l, ∀ s t, (f a).run s = .ok () t → Fills (T a) v s t)
    (h : (l.forM f).run s = .ok () t) : Fills (fun loc => ∃ a ∈ l, T a loc) v s t := by
  refine forM_ok (fun l t => Fills (fun loc => ∃ a ∈ l, T a loc) v s t) h
    ⟨by simp, fun _ _ => rfl⟩ fun pre a post t t' hl hI ha => ?_
  refine (hI.seq (hf a (by simp [hl]) t t' ha)).congr fun loc => ?_
  simp [or_and_right, exists_or]

end Fills

variable {s t : Msr} {core : Nat} {v : Word}

section Phase

variable {α : Type} {o : Option α} {ids : List Nat} {start : Nat} {num : α → Nat} {val : α → Word}
  {L : Nat → Nat → Loc} {B : Loc → Prop} {getCore : Nat → Except Err Nat}

end Phase

section Phases

variable (hfit : p.FitsBanks)
include hfit

end Phases

section Reset

variable {cfg : CdpConfig} {cap : Cap}

theorem hwAllocReset_phases (h : (hwAllocReset p cfg).run s = .ok cap t) :
    ∃ s₁ s₂ s₃ s₄,
      ((p.capGetType CapItem.l3ca?).toOption.forM fun c =>
        p.cpu.getSockets.forM (l3caReset p c.maxL3Cos c)).run s = .ok () s₁
      ∧ ((p.capGetType CapItem.l2ca?).toOption.forM fun c =>
        p.cpu.getL2ids.forM (l2caReset p c)).run s₁ = .ok () s₂
      ∧ ((p.capGetType CapItem.mba?).toOption.forM fun c =>
        p.cpu.getSockets.forM (mbaReset p c)).run s₂ = .ok () s₃
      ∧ (allocAssocReset p).run s₃ = .ok () s₄
      ∧ (match (p.capGetType CapItem.l3ca?).toOption with
        | some c => cdpSwitch p cfg c
        | none => pure p.cap).run s₄ = .ok cap t := by
  unfold hwAllocReset at h
  simp only [bind_ok, failIf_ok] at h
  obtain ⟨_, _, ⟨-, rfl⟩, _, _, ⟨-, rfl⟩, _, _, ⟨-, rfl⟩, _, s₁, h₁, _, s₂, h₂, _, s₃, h₃, _, s₄,
    h₄, h₅⟩ := h
  exact ⟨s₁, s₂, s₃, s₄, h₁, h₂, h₃, h₄, h₅⟩

end Reset

end Pqos
