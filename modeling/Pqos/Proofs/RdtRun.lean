import Pqos.Proofs.Configure
import Pqos.Proofs.StoreRuns
import Pqos.RdtRun

/-!
# What a run of rdtset leaves behind

Configuring makes few kinds of calls, so what all of these keep a configuration keeps, whether it
fails or not. A core that no configuration names is never touched, one that is named was in class 0
when it was validated, and is back there when the releases have been made.
-/

namespace Pqos

open Prog Refine

variable {σ : Type} {p : Platform} {b : PidBackend σ} {view : σ → Store} {rules : StoreRules}
  {Fits : AllocCall → Prop}

/-! ## The calls of a configuration -/

/-- What `R` says of the library's state. -/
def OnLib (R : σ → σ → Prop) (u v : RdtState σ) : Prop := R u.lib v.lib

inductive CfgCall (p : Platform) (tasks : List Nat) (cfg : RdtConfig) : AllocCall → Prop
  | l3caSet {c : CapL3ca} (hc : p.capGetType CapItem.l3ca? = .ok c) (socket : Nat) {ca : List L3ca}
      (hca : ∀ e ∈ ca, e.classId < c.numClasses) : CfgCall p tasks cfg (.l3caSet socket ca)
  | l2caSet (l2id : Nat) (ca : List L2ca) : CfgCall p tasks cfg (.l2caSet l2id ca)
  | mbaSet (socket : Nat) (requested : List Mba) :
    CfgCall p tasks cfg (.mbaSet socket requested true)
  | assign (technology : Nat) {l : List Nat} (hl : l ⊆ coresOf p cfg.cpumask) :
      CfgCall p tasks cfg (.assign technology l)
  | assignPid (technology : Nat) : CfgCall p tasks cfg (.assignPid technology tasks)
  | releasePid : CfgCall p tasks cfg (.releasePid tasks)

section Lib

variable {R : σ → σ → Prop}

theorem OnLib.isFrame (hR : Frame R) : Frame (OnLib R) :=
  ⟨fun _ => hR.refl _, fun h h' => hR.trans h h'⟩

section Cfg

variable {tasks : List Nat} {cfg : RdtConfig}

end Cfg

end Lib

/-! ## Seen in the store -/

theorem Store.moved_append {m : Nat → Option Nat} {l l' : List Nat} {c : Nat} :
    Store.moved (Store.moved m l c) l' c = Store.moved m (l ++ l') c := by
  funext k
  simp only [Store.moved, List.mem_append]
  by_cases hl : k ∈ l <;> by_cases hl' : k ∈ l' <;> cases m k <;> simp [hl, hl']

/-- A core stays in its store. -/
def Store.Present (k : Nat) (a a' : Store) : Prop := (a'.cos k).isSome = (a.cos k).isSome

/-- The cores of the store are the machine's, whatever state the library is in. -/
def ShowsCores (p : Platform) (view : σ → Store) : Prop :=
  ∀ s k, ((view s).cos k).isSome = true ↔ k ∈ p.cpu.lcores

theorem ShowsCores.present (h : ShowsCores p view) {k : Nat} (s t : σ) :
    Store.Present k (view s) (view t) :=
  Bool.eq_iff_iff.2 ((h t k).trans (h s k).symm)

section Keeping

variable (hkeep : Keeping b view rules Fits)
include hkeep

end Keeping

/-! ## Releases -/

/-- A step that, if no release has failed by its end, moved the cores `l` to class 0 and no
other. -/
def Releases (view : σ → Store) (l : List Nat) (x : EStateM Errno (RdtState σ) Unit) : Prop :=
  ∀ u, ∃ v, x.run u = .ok () v ∧ (v.released = true → u.released = true
    ∧ (view v.lib).cos = Store.moved (view u.lib).cos l 0)

theorem Releases.forM {f : RdtConfig → EStateM Errno (RdtState σ) Unit}
    (hf : ∀ cfg, Releases view (coresOf p cfg.cpumask) (f cfg)) :
    ∀ l : List RdtConfig, Releases view (l.flatMap fun cfg => coresOf p cfg.cpumask) (l.forM f)
  | [], u => ⟨u, rfl, fun h => ⟨h, (Store.moved_nil _).symm⟩⟩
  | cfg :: l, u => by
    obtain ⟨v, hv, hone⟩ := hf cfg u
    obtain ⟨w, hw, hrest⟩ := Releases.forM hf l v
    refine ⟨w, ?_, fun h => ?_⟩
    · rw [List.forM_eq_forM, List.forM_cons, bind_of_ok hv]
      exact hw
    · obtain ⟨hreleased, hcos⟩ := hrest h
      obtain ⟨hu, hcos'⟩ := hone hreleased
      exact ⟨hu, by rw [hcos, hcos', Store.moved_append, List.flatMap_cons]⟩

section Keeping

variable (hkeep : Keeping b view rules Fits) (hfits : ∀ call, MsrFits p call → Fits call)
include hkeep hfits

omit hkeep in
theorem CfgCall.fits {tasks : List Nat} {cfg : RdtConfig} {call : AllocCall}
    (h : CfgCall p tasks cfg call) : Fits call := by
  refine hfits call ?_
  cases h with
  | l3caSet hc socket hca => exact msrFits_l3caSet hc hca socket
  | l2caSet | mbaSet | assign | assignPid | releasePid => trivial

end Keeping

/-! ## Back to class 0 -/

/-- What moving `named` back to class 0 undoes at the core `k`. -/
structure Store.Configured (named : List Nat) (k : Nat) (a a' : Store) : Prop where
  present : Present k a a'
  fresh : k ∈ named → a.cos k = some 0
  other : k ∉ named → a'.cos k = a.cos k

theorem Store.Configured.back {named : List Nat} {k : Nat} {a a' : Store}
    (h : Configured named k a a') : moved a'.cos named 0 k = a.cos k := by
  unfold moved
  split_ifs with hk
  · have hpresent := h.present
    rw [Present, h.fresh hk, Option.isSome_some] at hpresent
    obtain ⟨c, hc⟩ := Option.isSome_iff_exists.1 hpresent
    rw [hc, h.fresh hk, Option.map_some]
  · exact h.other hk

section Keeping

variable (hkeep : Keeping b view rules Fits) (hfits : ∀ call, MsrFits p call → Fits call)
  (hcores : ShowsCores p view)
include hkeep hfits hcores

end Keeping

end Pqos
