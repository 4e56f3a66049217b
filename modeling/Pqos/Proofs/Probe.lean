import Pqos.Probe
import Pqos.Proofs.RoundTrip
import Pqos.Proofs.Banks

/-!
# What the probe finds and leaves

A probe writes to the registers of one class only, and that class is free. Where a width is accepted
and the class can be written back, it finds the least such width and leaves every register as it
was. Where none is, it ends with the status of the last write, so it fails only if the hardware
fails the writes that it refuses.
-/

namespace Pqos

open Prog

/-! ## Widths -/

section Widths

variable (rule : MaskRule)

/-- The hardware takes the mask of the `w` lowest ways. -/
def MaskRule.accepts (w : Nat) : Bool := rule.takes (BitVec.ofNat 64 (2 ^ w - 1))

theorem probeMask_lt : ∀ w < 32, probeMask w = BitVec.ofNat 64 (2 ^ w - 1) := by decide

theorem probeMask_mod (w : Nat) : probeMask (w % 32) = probeMask w := by
  unfold probeMask
  rw [Nat.mod_mod]

theorem probeMask_ne_zero {w : Nat} (hw : 1 ≤ w) (hlt : w < 32) : probeMask w ≠ 0#64 := by
  have h : ∀ w < 32, 1 ≤ w → probeMask w ≠ 0#64 := by decide
  exact h w hlt hw

theorem takes_probeMask {w : Nat} (hw : w < 32) : rule.takes (probeMask w) = rule.accepts w := by
  rw [probeMask_lt w hw, MaskRule.accepts]

/-- From 32 ways on the masks are those of fewer ways again. -/
theorem takes_low {w : Nat} (h : rule.takes (probeMask w) = true) :
    0 < w % 32 ∧ rule.takes (probeMask (w % 32)) = true := by
  refine ⟨Nat.pos_of_ne_zero fun hzero => ?_, by rwa [probeMask_mod]⟩
  rw [← probeMask_mod, hzero, show probeMask 0 = 0#64 by decide, rule.takes_zero] at h
  cases h

end Widths

/-! ## Writing to mask registers -/

section Writes

variable {p : Platform} {rule : MaskRule} {core : Nat} {regs : List Nat} {s t : Msr}

theorem maskWrite_takes (hp : p.Reliable) (hl : core ∈ p.cpu.lcores) {v : Word}
    (hv : rule.takes v = true) (reg : Nat) (s : Msr) :
    (maskWrite p rule core reg v).run s
      = .ok () ((s.log (.wr core reg v)).write (p.cpu.loc core reg) v) := by
  rw [maskWrite, if_pos hv, msrWrite_run hp hl]

theorem maskWrite_refuses (hp : p.Reliable) (hl : core ∈ p.cpu.lcores) {v : Word}
    (hv : rule.takes v = false) (reg : Nat) (s : Msr) :
    (maskWrite p rule core reg v).run s
      = if rule.faults then .error .error (s.log (.wr core reg v))
        else .ok () (s.log (.wr core reg v)) := by
  rw [maskWrite, if_neg (by simp [hv]), bind_of_ok (msrAccess_run (a := .wr core reg v) hp hl),
    failIf_run]

/-- Values that are taken are stored. -/
theorem writes_taken (hp : p.Reliable) (hl : core ∈ p.cpu.lcores) {f : Nat → Word} :
    ∀ {regs : List Nat} {s : Msr}, (∀ r ∈ regs, rule.takes (f r) = true) →
      ∃ t, (regs.forM fun r => maskWrite p rule core r (f r)).run s = .ok ⟨⟩ t
        ∧ Stores p core (fun r => if r ∈ regs then some (f r) else none) s t
  | [], s, _ => ⟨s, rfl, (Stores.of_mem rfl).congr fun r => by simp⟩
  | reg :: regs, s, h => by
    have hw := maskWrite_takes hp hl (h reg List.mem_cons_self) reg s
    obtain ⟨t, ht, hs⟩ := writes_taken hp hl (s := (s.log _).write (p.cpu.loc core reg) (f reg))
      fun r hr => h r (List.mem_cons_of_mem reg hr)
    refine ⟨t, ?_, (Stores.seq (Stores.of_update rfl) hs).congr fun r => ?_⟩
    · rw [List.forM_eq_forM, List.forM_cons, bind_of_ok hw]
      exact ht
    · by_cases hr : r ∈ regs
      · simp [hr]
      · by_cases hreg : r = reg
        · subst hreg
          simp [hr]
        · simp [hr, hreg]

/-- Values that are refused change nothing, and the first of them ends the loop if it fails. -/
theorem writes_refused (hp : p.Reliable) (hl : core ∈ p.cpu.lcores) {f : Nat → Word} :
    ∀ {regs : List Nat} {s : Msr}, regs ≠ [] → (∀ r ∈ regs, rule.takes (f r) = false) →
      ∃ t, (regs.forM fun r => maskWrite p rule core r (f r)).run s
        = (if rule.faults then .error .error t else .ok ⟨⟩ t) ∧ t.mem = s.mem
  | reg :: regs, s, _, h => by
    have hw := maskWrite_refuses hp hl (h reg List.mem_cons_self) reg s
    rw [List.forM_eq_forM, List.forM_cons]
    rcases hf : rule.faults with _ | _ <;> rw [hf] at hw
    · rw [bind_of_ok hw]
      rcases regs with _ | ⟨reg', regs⟩
      · exact ⟨_, rfl, rfl⟩
      · obtain ⟨t, ht, hmem⟩ := writes_refused hp hl (s := s.log (.wr core reg (f reg)))
          (List.cons_ne_nil reg' regs) fun r hr => h r (List.mem_cons_of_mem reg hr)
        rw [hf] at ht
        exact ⟨t, ht, hmem⟩
    · rw [bind_of_error hw]
      exact ⟨_, rfl, rfl⟩

/-- A register holds what it held, or what `f` has for it and the hardware takes. -/
def HeldOr (p : Platform) (rule : MaskRule) (core : Nat) (f : Nat → Word) (s t : Msr) : Prop :=
  ∀ r, t.read p.cpu core r = s.read p.cpu core r
    ∨ rule.takes (f r) = true ∧ t.read p.cpu core r = f r

theorem HeldOr.isFrame {f : Nat → Word} : Frame (HeldOr p rule core f) :=
  Frame.all fun r => Frame.eqOr _ fun v => rule.takes (f r) = true ∧ v = f r

theorem writes_each (hp : p.Reliable) (hl : core ∈ p.cpu.lcores) (f : Nat → Word)
    (regs : List Nat) :
    Keeps (HeldOr p rule core f) (regs.forM fun r => maskWrite p rule core r (f r)) := by
  refine Keeps.forM HeldOr.isFrame fun reg _ s r => ?_
  rcases hv : rule.takes (f reg) with _ | _
  · rw [maskWrite_refuses hp hl hv]
    refine Or.inl ?_
    split_ifs <;> rfl
  · rw [maskWrite_takes hp hl hv, final_ok]
    by_cases hr : r = reg
    · subst hr
      exact Or.inr ⟨hv, Function.update_self _ _ _⟩
    · refine Or.inl (Function.update_of_ne (fun h => hr (CpuInfo.loc_inj h)) _ _)

/-- Registers that were stored what they held are as they were. -/
theorem Stores.mem_of_back {w : Nat → Option Word} (h : Stores p core w s t)
    (hw : ∀ r v, w r = some v → v = s.read p.cpu core r) : t.mem = s.mem := by
  funext l
  by_cases hl : ∃ r v, w r = some v ∧ l = p.cpu.loc core r
  · obtain ⟨r, v, hr, rfl⟩ := hl
    calc t.mem (p.cpu.loc core r) = (w r).getD (s.read p.cpu core r) := h.read r
      _ = s.mem (p.cpu.loc core r) := by rw [hr, Option.getD_some, hw r v hr, Msr.read]
  · exact h.frame l fun r v hr he => hl ⟨r, v, hr, he⟩

theorem maskWrite_total (hp : p.Reliable) (hl : core ∈ p.cpu.lcores) (hf : rule.faults = false)
    (reg : Nat) (v : Word) : Total (maskWrite p rule core reg v) := by
  intro s
  rcases hv : rule.takes v with _ | _
  · refine ⟨(), s.log (.wr core reg v), ?_⟩
    rw [maskWrite_refuses hp hl hv, hf]
    rfl
  · exact ⟨(), _, maskWrite_takes hp hl hv reg s⟩

/-- Where refused writes fail, a loop that succeeds has had none of them. -/
theorem writes_ok (hp : p.Reliable) (hl : core ∈ p.cpu.lcores) (hf : rule.faults = true)
    {f : Nat → Word} {regs : List Nat} {s t : Msr} {u : PUnit}
    (h : (regs.forM fun r => maskWrite p rule core r (f r)).run s = .ok u t) :
    ∀ r ∈ regs, rule.takes (f r) = true := by
  refine forM_ok (fun l _ => ∀ r ∈ l, rule.takes (f r) = true) h (by simp) ?_
  intro pre reg post s t _ hpre hw r hr
  rcases List.mem_append.1 hr with hr | hr
  · exact hpre r hr
  · obtain rfl := List.mem_singleton.1 hr
    by_contra hno
    rw [maskWrite_refuses hp hl (by simpa using hno), hf] at hw
    cases hw

theorem maskWrite_confined {W : Nat → Nat → Prop} {lcore reg : Nat} {v : Word} (h : W lcore reg) :
    Keeps (Confined p W) (maskWrite p rule lcore reg v) := by
  unfold maskWrite
  split_ifs
  · exact msrWrite_confined h
  · refine Keeps.bind Confined.isFrame (msrAccess_confined fun k r v hk => ?_) fun _ =>
      Keeps.failIf Confined.isFrame _ _
    cases hk
    exact h

/-- The loop leaves what it does not name alone. -/
theorem writes_mem (f : Nat → Word) (h : final ((regs.forM fun r =>
    maskWrite p rule core r (f r)).run s) = t) (hread : ∀ r ∈ regs,
    t.read p.cpu core r = s.read p.cpu core r) : t.mem = s.mem := by
  have hconf : Confined p (fun k r => k = core ∧ r ∈ regs) s t := by
    rw [← h]
    exact Keeps.forM Confined.isFrame (fun r hr => maskWrite_confined ⟨rfl, hr⟩) s
  funext l
  by_cases hl : ∃ r ∈ regs, l = p.cpu.loc core r
  · obtain ⟨r, hr, rfl⟩ := hl
    exact hread r hr
  · refine hconf.frame l fun k r hkr he => hl ?_
    obtain ⟨rfl, hr⟩ := hkr
    exact ⟨r, hr, he⟩

end Writes

/-! ## Probing a class -/

/-- A class of the domain `id`, whose registers `core` reaches, in terms of these. Of a register's
value the technology sees what `trim` leaves. -/
structure Bench {γ α : Type} (p : Platform) (rule : MaskRule) (P : CbmProbe γ α)
    (id classId core : Nat) (regs : List Nat) (trim : Word → Word) : Prop where
  known : core ∈ p.cpu.lcores
  nonempty : regs ≠ []
  trim_probe : ∀ w, trim (probeMask w) = probeMask w
  whole : (∀ v, trim v = v) ∨ ∃ r, regs = [r]
  set : ∀ w s, (P.set id [P.entry classId (probeMask w)]).run s
    = (regs.forM fun r => maskWrite p rule core r (probeMask w)).run s
  get : ∀ s : Msr, ∃ tab t, (P.get id).run s = .ok tab t ∧ t.mem = s.mem
    ∧ ∃ ca, tab.filter (fun ca => P.classId ca = classId) = [ca]
      ∧ (∀ w, P.shows (probeMask w) ca = true
        ↔ ∀ r ∈ regs, trim (s.read p.cpu core r) = probeMask w)
      ∧ ∀ u, (P.set id [ca]).run u
        = (regs.forM fun r => maskWrite p rule core r (trim (s.read p.cpu core r))).run u

/-- A width is settled on when its mask reads back: it was taken, or it was dropped and the
registers had it. -/
def MaskRule.Settles (rule : MaskRule) (regs : List Nat) (saved : Nat → Word) (w : Nat) : Prop :=
  rule.takes (probeMask w) = true ∨ rule.faults = false ∧ ∀ r ∈ regs, saved r = probeMask w

theorem MaskRule.settles_refused {rule : MaskRule} {regs : List Nat} {saved : Nat → Word} {w : Nat}
    (h : rule.takes (probeMask w) = false) : rule.Settles regs saved w
      ↔ rule.faults = false ∧ ∀ r ∈ regs, saved r = probeMask w := by
  simp [MaskRule.Settles, h]

section Bench

variable {γ α : Type} {p : Platform} {rule : MaskRule} {P : CbmProbe γ α} {id classId core : Nat}
  {regs : List Nat} {trim : Word → Word}

/-- What a search through widths leaves: the first that is settled on, with its mask in the
registers if it was taken; or none, and the status of the last. -/
def Probed (p : Platform) (rule : MaskRule) (core : Nat) (regs : List Nat) (saved : Nat → Word)
    (s : Msr) (l : List Nat) (ret ret' : Except Err (Option Nat)) (u : Msr) : Prop :=
  (∃ pre w post, l = pre ++ w :: post ∧ (∀ w' ∈ pre, ¬ rule.Settles regs saved w')
      ∧ rule.Settles regs saved w ∧ ret' = .ok (some w)
      ∧ (rule.takes (probeMask w) = true →
        Stores p core (fun r => if r ∈ regs then some (probeMask w) else none) s u)
      ∧ (rule.takes (probeMask w) = false → u.mem = s.mem))
    ∨ (∀ w ∈ l, ¬ rule.Settles regs saved w)
      ∧ ret' = (if l = [] then ret else if rule.faults then .error .error else .ok none)
      ∧ u.mem = s.mem

/-- A width that is not settled on leaves the search to the others. -/
theorem Probed.cons {saved : Nat → Word} {s u : Msr} {w : Nat} {l : List Nat}
    {ret ret' : Except Err (Option Nat)} (hw : ¬ rule.Settles regs saved w)
    (h : Probed p rule core regs saved s l
      (if rule.faults then .error .error else .ok none) ret' u) :
    Probed p rule core regs saved s (w :: l) ret ret' u := by
  rcases h with ⟨pre, w', post, rfl, hpre, h⟩ | ⟨hl, hret, hmem⟩
  · refine Or.inl ⟨w :: pre, w', post, rfl, fun v hv => ?_, h⟩
    rcases List.mem_cons.1 hv with rfl | hv
    · exact hw
    · exact hpre v hv
  · refine Or.inr ⟨fun v hv => ?_, ?_, hmem⟩
    · rcases List.mem_cons.1 hv with rfl | hv
      · exact hw
      · exact hl v hv
    · rw [hret, ite_self, if_neg (List.cons_ne_nil w l)]

/-- A width whose mask was written without an error is settled on when it reads back. -/
theorem Bench.probeStep (h : Bench p rule P id classId core regs trim) {w : Nat} {l : List Nat}
    (ret : Except Err (Option Nat)) {t u : Msr}
    (hu : (P.set id [P.entry classId (probeMask w)]).run t = .ok ⟨⟩ u) :
    ∃ v, v.mem = u.mem ∧
      ((∀ r ∈ regs, trim (u.read p.cpu core r) = probeMask w) →
        (probeWays P id classId ret (w :: l)).run t = .ok (.ok (some w)) v)
      ∧ ((¬ ∀ r ∈ regs, trim (u.read p.cpu core r) = probeMask w) →
        (probeWays P id classId ret (w :: l)).run t
          = (probeWays P id classId (.ok none) l).run v) := by
  obtain ⟨tab, v, htab, hv, ca, hca, hshows, -⟩ := h.get u
  have hfound : (∃ ca ∈ tab, P.classId ca = classId ∧ P.shows (probeMask w) ca = true)
      ↔ ∀ r ∈ regs, trim (u.read p.cpu core r) = probeMask w := by
    have hmem (ca' : α) : ca' ∈ tab ∧ P.classId ca' = classId ↔ ca' = ca := by
      rw [show ca' = ca ↔ ca' ∈ [ca] from List.mem_singleton.symm, ← hca, List.mem_filter,
        decide_eq_true_eq]
    simp only [← and_assoc, hmem, exists_eq_left, hshows]
  refine ⟨v, hv, fun hall => ?_, fun hnot => ?_⟩
  · rw [probeWays, attempt_bind_of_ok hu]
    dsimp only
    rw [attempt_bind_of_ok htab]
    dsimp only
    rw [if_pos (hfound.2 hall)]
    rfl
  · rw [probeWays, attempt_bind_of_ok hu]
    dsimp only
    rw [attempt_bind_of_ok htab]
    dsimp only
    rw [if_neg (mt hfound.1 hnot)]

theorem Bench.probeWays_run (hp : p.Reliable) (h : Bench p rule P id classId core regs trim)
    {s : Msr} :
    ∀ {l : List Nat} (ret : Except Err (Option Nat)) {t : Msr}, t.mem = s.mem →
      ∃ ret' u, (probeWays P id classId ret l).run t = .ok ret' u
        ∧ Probed p rule core regs (fun r => trim (s.read p.cpu core r)) s l ret ret' u
  | [], ret, t, ht => ⟨ret, t, rfl, Or.inr ⟨by simp, rfl, ht⟩⟩
  | w :: l, ret, t, ht => by
    rcases htakes : rule.takes (probeMask w) with _ | _
    · obtain ⟨u, hu, hmem⟩ := writes_refused (f := fun _ => probeMask w) hp h.known h.nonempty
        (s := t) fun _ _ => htakes
      rw [← h.set] at hu
      have hsame : u.mem = s.mem := hmem.trans ht
      rcases hf : rule.faults with _ | _ <;> rw [hf] at hu
      · obtain ⟨v, hv, hfound, hnot⟩ := h.probeStep (l := l) ret hu
        have hread (r : Nat) : u.read p.cpu core r = s.read p.cpu core r := by
          rw [Msr.read, Msr.read, hsame]
        simp only [hread] at hfound hnot
        by_cases hall : ∀ r ∈ regs, trim (s.read p.cpu core r) = probeMask w
        · refine ⟨_, v, hfound hall, Or.inl ⟨[], w, l, rfl, by simp, Or.inr ⟨hf, hall⟩, rfl, ?_,
            fun _ => hv.trans hsame⟩⟩
          intro hyes
          rw [htakes] at hyes
          cases hyes
        · have hset : ¬ rule.Settles regs (fun r => trim (s.read p.cpu core r)) w :=
            fun hyes => hall ((MaskRule.settles_refused htakes).1 hyes).2
          obtain ⟨ret', x, hx, hprobed⟩ := h.probeWays_run hp (l := l) (.ok none) (hv.trans hsame)
          refine ⟨ret', x, (hnot hall).trans hx, Probed.cons hset ?_⟩
          rw [hf]
          exact hprobed
      · have hset : ¬ rule.Settles regs (fun r => trim (s.read p.cpu core r)) w := by
          rw [MaskRule.settles_refused htakes, hf]
          rintro ⟨hyes, -⟩
          cases hyes
        obtain ⟨ret', x, hx, hprobed⟩ := h.probeWays_run hp (l := l) (.error .error) hsame
        refine ⟨ret', x, ?_, Probed.cons hset ?_⟩
        · rw [probeWays, attempt_bind_of_error hu]
          exact hx
        · rw [hf]
          exact hprobed
    · obtain ⟨u, hu, hstores⟩ := writes_taken (f := fun _ => probeMask w) hp h.known (s := t)
        fun _ _ => htakes
      rw [← h.set] at hu
      obtain ⟨v, hv, hfound, -⟩ := h.probeStep (l := l) ret hu
      have hall : ∀ r ∈ regs, trim (u.read p.cpu core r) = probeMask w := by
        intro r hr
        rw [hstores.read, if_pos hr, Option.getD_some, h.trim_probe]
      refine ⟨_, v, hfound hall,
        Or.inl ⟨[], w, l, rfl, by simp, Or.inl htakes, rfl, fun _ => ?_, ?_⟩⟩
      · exact (((Stores.of_mem ht).seq hstores).seq (Stores.of_mem hv)).congr fun r => by simp
      · intro hno
        rw [htakes] at hno
        cases hno

/-- The loop over the ways splits at a width into those below and those above. -/
theorem range'_split {n w : Nat} {pre post : List Nat} (h : List.range' 1 n = pre ++ w :: post) :
    1 ≤ w ∧ w ≤ n ∧ ∀ w', 1 ≤ w' → w' < w → w' ∈ pre := by
  obtain ⟨k, hk, rfl, hpost⟩ := List.range'_eq_append_iff.1 h
  obtain ⟨hw, hpos, -⟩ := List.range'_eq_cons_iff.1 hpost.symm
  refine ⟨by omega, by omega, fun w' h1 hlt => ?_⟩
  rw [List.mem_range'_1]
  omega

/-- No width is the first to be settled on beyond 32: the masks are those of fewer ways again. -/
theorem MaskRule.Settles.le {saved : Nat → Word} {w : Nat} (h : rule.Settles regs saved w)
    (hfirst : ∀ w', 1 ≤ w' → w' < w → ¬ rule.Settles regs saved w') : w ≤ 32 := by
  by_contra hlt
  by_cases hzero : w % 32 = 0
  · refine hfirst 32 (by omega) (by omega) ?_
    unfold MaskRule.Settles at h ⊢
    rwa [← probeMask_mod 32, show 32 % 32 = w % 32 by omega, probeMask_mod]
  · refine hfirst (w % 32) (by omega) (by omega) ?_
    unfold MaskRule.Settles at h ⊢
    rwa [probeMask_mod]

end Bench

/-! ## What the probe is for -/

/-- The registers are as they were, and what is returned with `PQOS_RETVAL_OK` is the least width
that the hardware accepts. -/
structure FindsLeast (rule : MaskRule) (numWays : Nat) (s : Msr)
    (r : EStateM.Result Err Msr (Option Nat)) : Prop where
  restored : (final r).mem = s.mem
  least : ∀ o, outcome r = .ok o → ∃ w, o = some w ∧ 1 ≤ w ∧ w ≤ numWays
    ∧ rule.accepts w = true ∧ ∀ w', 1 ≤ w' → w' < w → rule.accepts w' = false

/-- When it does that. Of the widths that an `int` has room for, one is accepted, and so are the
masks that the class is written back with; or none is, and the last write fails and writing back
does no harm; or none is but 32, whose mask comes out as 0, and that is what the registers hold. -/
def MaskRule.Meets (rule : MaskRule) (numWays : Nat) (regs : List Nat) (held saved : Nat → Word) :
    Prop :=
  (∃ w, 1 ≤ w ∧ w ≤ min numWays 31 ∧ rule.accepts w = true)
      ∧ (∀ r ∈ regs, rule.takes (saved r) = true ∧ saved r = held r)
    ∨ (∀ w, 1 ≤ w → w ≤ min numWays 31 → rule.accepts w = false)
      ∧ (rule.faults = true ∧ (1 ≤ numWays ∨ ∃ r ∈ regs, rule.takes (saved r) = false)
          ∧ (∀ r ∈ regs, rule.takes (saved r) = true → saved r = held r)
        ∨ rule.faults = false ∧ 32 ≤ numWays ∧ rule.accepts 32 = true
          ∧ ∀ r ∈ regs, saved r = 0#64)

section Meets

variable {γ α : Type} {p : Platform} {rule : MaskRule} {P : CbmProbe γ α} {id classId core : Nat}
  {regs : List Nat} {trim : Word → Word} {n : Nat} {s t : Msr}

/-- The loop that writes a class back, and the status it ends the probe with. -/
def writeBack (p : Platform) (rule : MaskRule) (core : Nat) (regs : List Nat) (saved : Nat → Word)
    (ret : Except Err (Option Nat)) : EStateM Err Msr (Option Nat) := do
  regs.forM fun r => maskWrite p rule core r (saved r)
  ofExcept ret

section WriteBack

variable {saved : Nat → Word} {ret : Except Err (Option Nat)} {u : Msr}

theorem writeBack_final : final ((writeBack p rule core regs saved ret).run u)
    = final ((regs.forM fun r => maskWrite p rule core r (saved r)).run u) := by
  unfold writeBack
  rw [EStateM.run_bind]
  rcases (regs.forM fun r => maskWrite p rule core r (saved r)).run u with ⟨_, x⟩ | ⟨e, x⟩
  · cases ret <;> rfl
  · rfl

theorem writeBack_outcome {o : Option Nat} :
    outcome ((writeBack p rule core regs saved ret).run u) = .ok o
      ↔ (∃ x, (regs.forM fun r => maskWrite p rule core r (saved r)).run u = .ok ⟨⟩ x)
        ∧ ret = .ok o := by
  unfold writeBack
  rw [EStateM.run_bind]
  rcases (regs.forM fun r => maskWrite p rule core r (saved r)).run u with ⟨_, x⟩ | ⟨e, x⟩
  · cases ret <;> simp [ofExcept_run]
  · simp

end WriteBack

/-- The probe of a class is a search through the widths and a loop that writes the class back. -/
theorem Bench.probeClass_run (hp : p.Reliable) (h : Bench p rule P id classId core regs trim)
    (ht : t.mem = s.mem) : ∃ ret u,
      Probed p rule core regs (fun r => trim (s.read p.cpu core r)) s (List.range' 1 n) (.ok none)
        ret u
      ∧ (probeClass P n id classId).run t
        = (writeBack p rule core regs (fun r => trim (s.read p.cpu core r)) ret).run u := by
  obtain ⟨tab, v, htab, hv, ca, hca, -, hback⟩ := h.get t
  obtain ⟨ret, u, hu, hprobed⟩ := h.probeWays_run hp (s := s) (l := List.range' 1 n) (.ok none)
    (hv.trans ht)
  refine ⟨ret, u, hprobed, ?_⟩
  have hread (r : Nat) : t.read p.cpu core r = s.read p.cpu core r := by
    rw [Msr.read, Msr.read, ht]
  simp only [hread] at hback
  unfold probeClass writeBack
  rw [bind_of_ok htab, bind_of_ok hu, hca, forM_one, EStateM.run_bind, hback, EStateM.run_bind]

/-- What is left of the condition where no width is settled on. -/
theorem MaskRule.meets_iff_of_none {held saved : Nat → Word}
    (hnone : ∀ w ∈ List.range' 1 n, ¬ rule.Settles regs saved w) : rule.Meets n regs held saved
      ↔ rule.faults = true ∧ (1 ≤ n ∨ ∃ r ∈ regs, rule.takes (saved r) = false)
        ∧ ∀ r ∈ regs, rule.takes (saved r) = true → saved r = held r := by
  have hacc (w : Nat) (hw : 1 ≤ w) (hle : w ≤ min n 31) : rule.accepts w = false := by
    by_contra hyes
    refine hnone w (List.mem_range'_1.2 (by omega)) (Or.inl ?_)
    rw [takes_probeMask rule (by omega)]
    simpa using hyes
  constructor
  · rintro (⟨⟨w, hw, hle, hyes⟩, -⟩ | ⟨-, hfault | ⟨hf, hn, -, hzero⟩⟩)
    · rw [hacc w hw hle] at hyes
      cases hyes
    · exact hfault
    · refine absurd (Or.inr ⟨hf, fun r hr => ?_⟩) (hnone 32 (List.mem_range'_1.2 (by omega)))
      exact (hzero r hr).trans (by decide)
  · exact fun hfault => Or.inr ⟨hacc, Or.inl hfault⟩

variable (hp : p.Reliable) (h : Bench p rule P id classId core regs trim)
include hp h

/-- A width was taken. Then it is the least, and the class must be written back over it. -/
theorem Bench.meets_of_taken {w : Nat} {u : Msr} (hw : 1 ≤ w) (hn : w ≤ n) (h31 : w ≤ 31)
    (hlow : ∀ w', 1 ≤ w' → w' < w → rule.accepts w' = false)
    (htaken : rule.takes (probeMask w) = true)
    (hu : Stores p core (fun r => if r ∈ regs then some (probeMask w) else none) s u) :
    FindsLeast rule n s ((writeBack p rule core regs (fun r => trim (s.read p.cpu core r))
        (.ok (some w))).run u)
      ↔ rule.Meets n regs (s.read p.cpu core) fun r => trim (s.read p.cpu core r) := by
  have hacc : rule.accepts w = true := by rw [← takes_probeMask rule (by omega), htaken]
  have hmeets : rule.Meets n regs (s.read p.cpu core) (fun r => trim (s.read p.cpu core r))
      ↔ ∀ r ∈ regs, rule.takes (trim (s.read p.cpu core r)) = true
        ∧ trim (s.read p.cpu core r) = s.read p.cpu core r := by
    constructor
    · rintro (⟨-, hall⟩ | ⟨hnone, -⟩)
      · exact hall
      · rw [hnone w hw (by omega)] at hacc
        cases hacc
    · exact fun hall => Or.inl ⟨⟨w, hw, by omega, hacc⟩, hall⟩
  rw [hmeets]
  constructor
  · intro hfinds r hr
    have hrest := hfinds.restored
    rw [writeBack_final] at hrest
    have hheld : (final ((regs.forM fun r =>
        maskWrite p rule core r (trim (s.read p.cpu core r))).run u)).read p.cpu core r
          = s.read p.cpu core r := by
      rw [Msr.read, Msr.read, hrest]
    rcases writes_each hp h.known (fun r => trim (s.read p.cpu core r)) regs u r with
      hsame | ⟨ht, hset⟩
    · -- the mask that was taken is the one the register held
      rw [hheld, hu.read, if_pos hr, Option.getD_some] at hsame
      rw [hsame, h.trim_probe]
      exact ⟨htaken, rfl⟩
    · exact ⟨ht, hset.symm.trans hheld⟩
  · intro hall
    obtain ⟨x, hx, hback⟩ := writes_taken (f := fun r => trim (s.read p.cpu core r)) hp h.known
      (s := u) fun r hr => (hall r hr).1
    refine ⟨?_, fun o ho => ⟨w, ?_, hw, hn, hacc, hlow⟩⟩
    · rw [writeBack_final, hx, final_ok]
      refine (hu.seq hback).mem_of_back fun r v hv => ?_
      by_cases hr : r ∈ regs
      · rw [if_pos hr, Option.some_or, (hall r hr).2] at hv
        exact (Option.some.inj hv).symm
      · rw [if_neg hr, if_neg hr] at hv
        cases hv
    · cases (writeBack_outcome.1 ho).2
      rfl

/-- A width was settled on that was not taken: the registers held its mask, and the write was
dropped. -/
theorem Bench.meets_of_dropped {w : Nat} {u : Msr} (hw : 1 ≤ w) (hn : w ≤ n) (h32 : w ≤ 32)
    (hlow : ∀ w', 1 ≤ w' → w' < w → rule.accepts w' = false) (hf : rule.faults = false)
    (hdropped : rule.takes (probeMask w) = false)
    (hheld : ∀ r ∈ regs, trim (s.read p.cpu core r) = probeMask w) (hu : u.mem = s.mem) :
    FindsLeast rule n s ((writeBack p rule core regs (fun r => trim (s.read p.cpu core r))
        (.ok (some w))).run u)
      ↔ rule.Meets n regs (s.read p.cpu core) fun r => trim (s.read p.cpu core r) := by
  obtain ⟨r₀, hr₀⟩ := List.exists_mem_of_ne_nil regs h.nonempty
  have hfinds : FindsLeast rule n s ((writeBack p rule core regs
      (fun r => trim (s.read p.cpu core r)) (.ok (some w))).run u) ↔ rule.accepts w = true := by
    obtain ⟨x, hx, hmem⟩ := writes_refused (f := fun r => trim (s.read p.cpu core r)) hp h.known
      h.nonempty (s := u) fun r hr => by rw [hheld r hr, hdropped]
    rw [hf] at hx
    constructor
    · intro hleast
      obtain ⟨w', hw', -, -, hacc, -⟩ := hleast.least (some w) (writeBack_outcome.2 ⟨⟨x, hx⟩, rfl⟩)
      rwa [Option.some.inj hw']
    · intro hacc
      refine ⟨?_, fun o ho => ⟨w, ?_, hw, hn, hacc, hlow⟩⟩
      · rw [writeBack_final, hx]
        exact hmem.trans hu
      · cases (writeBack_outcome.1 ho).2
        rfl
  rw [hfinds]
  constructor
  · intro hacc
    obtain rfl : w = 32 := by
      by_contra hne
      rw [← takes_probeMask rule (by omega), hdropped] at hacc
      cases hacc
    refine Or.inr ⟨fun w' h1 hle => hlow w' h1 (by omega), Or.inr ⟨hf, hn, hacc, fun r hr => ?_⟩⟩
    exact (hheld r hr).trans (by decide)
  · rintro (⟨-, hall⟩ | ⟨-, ⟨hfault, -⟩ | ⟨-, -, hacc, hzero⟩⟩)
    · have htaken : rule.takes (trim (s.read p.cpu core r₀)) = true := (hall r₀ hr₀).1
      rw [hheld r₀ hr₀, hdropped] at htaken
      cases htaken
    · rw [hf] at hfault
      cases hfault
    · have hmask : probeMask w = 0#64 := (hheld r₀ hr₀).symm.trans (hzero r₀ hr₀)
      obtain rfl : w = 32 := by
        by_contra hne
        exact probeMask_ne_zero hw (by omega) hmask
      exact hacc

/-- Where the registers are as they were, what was taken of a class that is written back is what
they held. -/
theorem Bench.held_of_restored {ret : Except Err (Option Nat)} {u : Msr}
    (hrest : (final ((writeBack p rule core regs (fun r => trim (s.read p.cpu core r)) ret).run
      u)).mem = s.mem) : ∀ r ∈ regs, rule.takes (trim (s.read p.cpu core r)) = true →
        trim (s.read p.cpu core r) = s.read p.cpu core r := by
  intro r hr htaken
  rcases h.whole with hid | ⟨r', rfl⟩
  · exact hid _
  · obtain rfl := List.mem_singleton.1 hr
    have hall : ∀ r' ∈ [r], rule.takes (trim (s.read p.cpu core r')) = true := by
      intro r' hr'
      rwa [List.mem_singleton.1 hr']
    obtain ⟨x, hx, hback⟩ := writes_taken hp h.known (s := u) hall
    rw [writeBack_final, hx, final_ok] at hrest
    calc trim (s.read p.cpu core r) = x.read p.cpu core r := by
          rw [hback.read, if_pos hr, Option.getD_some]
      _ = s.read p.cpu core r := by rw [Msr.read, Msr.read, hrest]

/-- No width was settled on, so all that is left to ask is the status of the last. -/
theorem Bench.meets_of_none {ret : Except Err (Option Nat)} {u : Msr}
    (hnone : ∀ w ∈ List.range' 1 n, ¬ rule.Settles regs (fun r => trim (s.read p.cpu core r)) w)
    (hret : ret = if List.range' 1 n = [] then .ok none else if rule.faults then .error .error
      else .ok none) (hu : u.mem = s.mem) :
    FindsLeast rule n s ((writeBack p rule core regs (fun r => trim (s.read p.cpu core r))
        ret).run u)
      ↔ rule.Meets n regs (s.read p.cpu core) fun r => trim (s.read p.cpu core r) := by
  rw [MaskRule.meets_iff_of_none hnone]
  constructor
  · intro hfinds
    -- with nothing found, the write back must not succeed with the status left at success
    have hnot (hok : ret = .ok none) : ¬ ∃ x, (regs.forM fun r =>
        maskWrite p rule core r (trim (s.read p.cpu core r))).run u = .ok ⟨⟩ x := by
      intro hx
      obtain ⟨w, hw, -⟩ := hfinds.least none (writeBack_outcome.2 ⟨hx, hok⟩)
      cases hw
    have hfault : rule.faults = true := by
      by_contra hf
      have hf' : rule.faults = false := by simpa using hf
      refine hnot (by rw [hret, hf', if_neg Bool.false_ne_true, ite_self]) ?_
      obtain ⟨_, x, hx⟩ := Total.forM (fun r _ => maskWrite_total hp h.known hf' r
        (trim (s.read p.cpu core r))) u
      exact ⟨x, hx⟩
    refine ⟨hfault, ?_, h.held_of_restored hp hfinds.restored⟩
    by_contra hno
    rw [not_or, not_exists] at hno
    obtain ⟨hn, hall⟩ := hno
    obtain rfl : n = 0 := by omega
    have htaken : ∀ r ∈ regs, rule.takes (trim (s.read p.cpu core r)) = true := by
      intro r hr
      by_contra hrefused
      exact hall r ⟨hr, by simpa using hrefused⟩
    obtain ⟨x, hx, -⟩ := writes_taken hp h.known (s := u) htaken
    exact hnot (by rw [hret, List.range'_zero, if_pos rfl]) ⟨x, hx⟩
  · rintro ⟨hfault, hends, hharmless⟩
    have hread (r : Nat) : u.read p.cpu core r = s.read p.cpu core r := by
      rw [Msr.read, Msr.read, hu]
    refine ⟨?_, fun o ho => ?_⟩
    · rw [writeBack_final]
      refine (writes_mem (fun r => trim (s.read p.cpu core r)) rfl fun r hr => ?_).trans hu
      rcases writes_each hp h.known (fun r => trim (s.read p.cpu core r)) regs u r with
        hsame | ⟨ht, hset⟩
      · exact hsame
      · rw [hset, hread]
        exact hharmless r hr ht
    · obtain ⟨⟨x, hx⟩, hok⟩ := writeBack_outcome.1 ho
      rcases hends with hn | ⟨r, hr, hrefused⟩
      · rw [hret, if_neg (by simp; omega), hfault] at hok
        cases hok
      · rw [writes_ok hp h.known hfault hx r hr] at hrefused
        cases hrefused

/-- A class is probed as it should be if and only if its rule meets the condition. -/
theorem Bench.findsLeast_iff (ht : t.mem = s.mem) :
    FindsLeast rule n s ((probeClass P n id classId).run t)
      ↔ rule.Meets n regs (s.read p.cpu core) fun r => trim (s.read p.cpu core r) := by
  obtain ⟨ret, u, hprobed, hrun⟩ := h.probeClass_run hp (n := n) ht
  rw [hrun]
  rcases hprobed with ⟨pre, w, post, hl, hpre, hw, rfl, htaken, hdropped⟩ | ⟨hnone, hret, hu⟩
  · obtain ⟨h1, hn, hbelow⟩ := range'_split hl
    have h32 : w ≤ 32 := hw.le fun w' h1' hlt => hpre w' (hbelow w' h1' hlt)
    have hlow (w' : Nat) (h1' : 1 ≤ w') (hlt : w' < w) : rule.accepts w' = false := by
      by_contra hyes
      refine hpre w' (hbelow w' h1' hlt) (Or.inl ?_)
      rw [takes_probeMask rule (by omega)]
      simpa using hyes
    rcases hmask : rule.takes (probeMask w) with _ | _
    · obtain ⟨hf, hheld⟩ := hw.resolve_left (by simp [hmask])
      exact h.meets_of_dropped hp h1 hn h32 hlow hf hmask hheld (hdropped hmask)
    · have hpos := (takes_low rule hmask).1
      exact h.meets_of_taken hp h1 hn (by omega) hlow hmask (htaken hmask)
  · exact h.meets_of_none hp hnone hret hu

end Meets

end Pqos
