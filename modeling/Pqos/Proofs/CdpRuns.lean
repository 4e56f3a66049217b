import Pqos.Discovery
import Pqos.OsReset
import Pqos.Proofs.Reset

/-!
# The class count when CDP is switched

Discovery halves the count the hardware reports if it finds CDP on, and a reset halves or doubles
what the library holds. Nothing keeps the remainder of a division: an odd count loses a class the
first time CDP is on, and does not get it back.
-/

namespace Pqos

open Prog

/-! ## The L3 capability -/

def Cap.l3cas (cap : Cap) : List CapL3ca := cap.filterMap fun c => c.u.l3ca?

theorem Cap.l3cas_append (cap cap' : Cap) : (cap ++ cap').l3cas = cap.l3cas ++ cap'.l3cas :=
  List.filterMap_append

theorem l3cas_l3cdpChange (prev next : Bool) : ∀ cap : Cap,
    (capL3cdpChange prev next cap).l3cas = cap.l3cas.modifyHead (CapL3ca.cdpChange prev next)
  | [] => rfl
  | ⟨_, .l3ca _⟩ :: _ => rfl
  | ⟨_, .mon _⟩ :: cap => l3cas_l3cdpChange prev next cap
  | ⟨_, .l2ca _⟩ :: cap => l3cas_l3cdpChange prev next cap
  | ⟨_, .mba _⟩ :: cap => l3cas_l3cdpChange prev next cap

theorem capGetType_l3ca {p : Platform} {c c' : CapL3ca} (hone : p.cap.l3cas = [c])
    (h : p.capGetType CapItem.l3ca? = .ok c') : c' = c := by
  have hmem : c' ∈ p.cap.l3cas := List.mem_filterMap.2 (capGetType_mem h)
  rw [hone, List.mem_singleton] at hmem
  exact hmem

@[simp] theorem cdpChange_self (b : Bool) (c : CapL3ca) : c.cdpChange b b = c := by
  cases b <;> rfl

theorem capL3cdpChange_self (b : Bool) : ∀ cap : Cap, capL3cdpChange b b cap = cap
  | [] => rfl
  | ⟨os, .l3ca c⟩ :: cap => by rw [capL3cdpChange, cdpChange_self]
  | ⟨_, .mon _⟩ :: cap => congrArg _ (capL3cdpChange_self b cap)
  | ⟨_, .l2ca _⟩ :: cap => congrArg _ (capL3cdpChange_self b cap)
  | ⟨_, .mba _⟩ :: cap => congrArg _ (capL3cdpChange_self b cap)

theorem cdpChange_cdpOn (c : CapL3ca) (next : Bool) :
    (c.cdpChange c.cdpOn next).cdpOn = next := by
  unfold CapL3ca.cdpChange
  cases h : c.cdpOn <;> cases next <;> simp [h]

/-! ## What the hardware reports -/

/-- The number of L3 classes of the hardware, as CPUID tells it, as the model's name does, or as
many mask registers as can be read. -/
inductive L3Reported (p : Platform) (hw : Chip) (s : Msr) : Nat → Prop
  | cpuid (h : (hw.lcpuid 0x7 0).ebx.getLsbD 15 = true) :
      L3Reported p hw s ((hw.lcpuid 0x10 1).edx.toNat + 1)
  | unlisted {n : Nat} {t : Msr} (h : (hw.lcpuid 0x7 0).ebx.getLsbD 15 = false)
      (hn : (l3ClassesUnlisted p hw).run s = .ok n t) : L3Reported p hw s n

section Discovery

variable {p : Platform} {hw : Chip} {s t : Msr}

theorem probeRegs_le {lcore : Nat} : ∀ {n reg i : Nat} {s t : Msr},
    (probeRegs p lcore n reg).run s = .ok i t → i ≤ n
  | 0, _, _, _, _, h => by
    cases h
    exact Nat.le_refl 0
  | n + 1, reg, i, s, t, h => by
    unfold probeRegs at h
    obtain ⟨r, u, -, h⟩ := bind_ok.1 h
    split_ifs at h
    · obtain ⟨m, hm, rfl⟩ := map_ok.1 h
      exact Nat.succ_le_succ (probeRegs_le hm)
    · cases h
      exact Nat.zero_le _

theorem l3ClassesUnlisted_le {n : Nat} (h : (l3ClassesUnlisted p hw).run s = .ok n t) :
    n ≤ 128 := by
  unfold l3ClassesUnlisted at h
  split at h
  · next m hm =>
    cases h
    unfold discoverAllocL3Brandstr at hm
    split_ifs at hm
    cases hm
    decide
  · unfold discoverAllocL3Probe at h
    simp only [bind_ok] at h
    obtain ⟨i, u, hi, _, _, -, hn⟩ := h
    cases hn
    exact probeRegs_le hi

theorem onePlus_eq (v : BitVec 32) : onePlus v = (v.toNat + 1) % 2 ^ 32 := by
  rw [onePlus, BitVec.toNat_add]
  rfl

/-- The count found is what the hardware reports in 32 bits, halved if CDP is on. -/
theorem discoverAllocL3_count {c : CapL3ca} {h : Nat} (hrep : L3Reported p hw s h)
    (hrun : (discoverAllocL3 p hw).run s = .ok c t) :
    c.numClasses = if c.cdpOn then h % 2 ^ 32 / 2 else h % 2 ^ 32 := by
  unfold discoverAllocL3 at hrun
  cases hrep with
  | cpuid hbit =>
    rw [if_pos hbit] at hrun
    simp only [bind_ok] at hrun
    obtain ⟨cap, u, hcap, _, _, -, hc⟩ := hrun
    cases hc
    unfold discoverAllocL3Cpuid at hcap
    simp only [bind_ok] at hcap
    obtain ⟨_, _, -, hcap⟩ := hcap
    rw [← onePlus_eq]
    split_ifs at hcap with hcdp
    · obtain ⟨b, v, -, hcap⟩ := bind_ok.1 hcap
      cases hcap
      cases b <;> rfl
    · cases hcap
      rfl
  | @unlisted n v hbit hn =>
    rw [if_neg (by rw [hbit]; decide), bind_of_ok hn] at hrun
    simp only [bind_ok] at hrun
    obtain ⟨_, _, -, hc⟩ := hrun
    cases hc
    have := l3ClassesUnlisted_le hn
    rw [Nat.mod_eq_of_lt (by omega)]
    rfl

theorem detected_ok {α : Type} {item : α → CapItem} {r : Except Err α} {cap : Cap}
    (h : detected item r = .ok cap) : cap = [] ∨ ∃ c, r = .ok c ∧ cap = [⟨false, item c⟩] := by
  unfold detected at h
  split at h
  · cases h
    exact Or.inr ⟨_, rfl, rfl⟩
  · cases h
    exact Or.inl rfl
  · cases h

/-- What is discovered is put together from what each technology's discovery has found. -/
theorem discoverCapabilities_ok {cap : Cap} (h : (discoverCapabilities p hw).run s = .ok cap t) :
    ∃ mon l3 l2 mba : Cap, cap = mon ++ l3 ++ l2 ++ mba
      ∧ detected .mon (discoverMonitoring hw) = .ok mon
      ∧ (l3 = [] ∨ ∃ c u, (discoverAllocL3 p hw).run s = .ok c u ∧ l3 = [⟨false, .l3ca c⟩])
      ∧ detected .l2ca (discoverAllocL2 hw) = .ok l2
      ∧ detected .mba (discoverMba hw) = .ok mba := by
  unfold discoverCapabilities at h
  simp only [bind_ok, ofExcept_ok, failIf_ok, attempt_ok] at h
  obtain ⟨mon, _, ⟨hmon, rfl⟩, r, u, hr, l3, u₁, ⟨hl3, hu₁⟩, l2, u₂, ⟨hl2, hu₂⟩, mba, u₃,
    ⟨hmba, hu₃⟩, _, u₄, -, hcap⟩ := h
  cases hcap
  refine ⟨mon, l3, l2, mba, rfl, hmon, ?_, hl2, hmba⟩
  rcases detected_ok hl3 with rfl | ⟨c, hc, rfl⟩
  · exact Or.inl rfl
  · refine Or.inr ⟨c, u, ?_, rfl⟩
    rcases hr with ⟨a, ha, hrun⟩ | ⟨e, he, -⟩
    · rw [hc] at ha
      cases ha
      exact hrun
    · rw [hc] at he
      cases he

/-- There is one L3 capability at most, and it is the one discovered. -/
theorem discoverCapabilities_l3cas {cap : Cap} (h : (discoverCapabilities p hw).run s = .ok cap t) :
    cap.l3cas = [] ∨ ∃ c u, (discoverAllocL3 p hw).run s = .ok c u ∧ cap.l3cas = [c] := by
  obtain ⟨mon, l3, l2, mba, rfl, hmon, hl3, hl2, hmba⟩ := discoverCapabilities_ok h
  have hother : mon.l3cas = [] ∧ l2.l3cas = [] ∧ mba.l3cas = [] := by
    refine ⟨?_, ?_, ?_⟩
    · rcases detected_ok hmon with rfl | ⟨c, -, rfl⟩ <;> rfl
    · rcases detected_ok hl2 with rfl | ⟨c, -, rfl⟩ <;> rfl
    · rcases detected_ok hmba with rfl | ⟨c, -, rfl⟩ <;> rfl
  rw [Cap.l3cas_append, Cap.l3cas_append, Cap.l3cas_append, hother.1, hother.2.1, hother.2.2,
    List.nil_append, List.append_nil, List.append_nil]
  rcases hl3 with rfl | ⟨c, u, hc, rfl⟩
  · exact Or.inl rfl
  · exact Or.inr ⟨c, u, hc, rfl⟩

theorem osCapability_u_l3ca (os : OsFiles) (resctrl : Bool) (c : Capability) :
    (osCapability os resctrl c).u.l3ca? = c.u.l3ca? := by
  rcases c with ⟨sup, u⟩
  cases u <;> rfl

/-- What the kernel supports changes nothing about the L3 capability itself. -/
theorem discoverOsCapabilities_l3cas (i : Interface) (os : OsFiles) (cap : Cap) :
    (discoverOsCapabilities i os cap).2.l3cas = cap.l3cas := by
  have hmap : ∀ resctrl, Cap.l3cas (cap.map (osCapability os resctrl)) = cap.l3cas := by
    intro resctrl
    rw [Cap.l3cas, List.filterMap_map]
    exact List.filterMap_congr fun c _ => osCapability_u_l3ca os resctrl c
  simp only [discoverOsCapabilities]
  by_cases h : i = .os ∧ detectOsSupport os.filesystems "resctrl" false = false
  · rw [if_pos h]
  · rw [if_neg h]
    exact hmap _

end Discovery

/-! ## What one reset does -/

/-- A reset leaves the L3 capability as it was, or switches CDP as it was asked to. -/
inductive Switches (c : CapL3ca) : CdpConfig → CapL3ca → Prop
  | same (cfg : CdpConfig) : Switches c cfg c
  | on : Switches c .requireCdpOn (c.cdpChange c.cdpOn true)
  | off : Switches c .requireCdpOff (c.cdpChange c.cdpOn false)

section Step

variable {κ : Type} {p : Platform} {fs : Resctrl κ} {rctl : RctlMount κ} {c : CapL3ca}
  {cfg : CdpConfig}

theorem cdpSwitch_l3cas {cap : Cap} {m m' : Msr} (hone : p.cap.l3cas = [c])
    (h : (cdpSwitch p cfg c).run m = .ok cap m') :
    ∃ c', cap.l3cas = [c'] ∧ Switches c cfg c' := by
  unfold cdpSwitch at h
  split_ifs at h with hon hoff
  · obtain ⟨rfl, -⟩ := hon
    obtain ⟨_, _, -, hcap⟩ := bind_ok.1 h
    cases hcap
    exact ⟨_, by rw [l3cas_l3cdpChange, hone]; rfl, .on⟩
  · obtain ⟨rfl, -, -⟩ := hoff
    obtain ⟨_, _, -, hcap⟩ := bind_ok.1 h
    cases hcap
    exact ⟨_, by rw [l3cas_l3cdpChange, hone]; rfl, .off⟩
  · cases h
    exact ⟨c, hone, .same cfg⟩

theorem hwAllocReset_l3cas {cap : Cap} {m m' : Msr} (hone : p.cap.l3cas = [c])
    (h : (hwAllocReset p cfg).run m = .ok cap m') :
    ∃ c', cap.l3cas = [c'] ∧ Switches c cfg c' := by
  obtain ⟨_, _, _, m₄, -, -, -, -, h⟩ := hwAllocReset_phases h
  rcases hc : p.capGetType CapItem.l3ca? with e | d
  · rw [hc] at h
    cases h
    exact ⟨c, hone, .same cfg⟩
  · rw [hc] at h
    obtain rfl := capGetType_l3ca hone hc
    exact cdpSwitch_l3cas hone h

theorem onKernel_cap {α : Type} (x : EStateM Err κ α) :
    Keeps (fun s t : LibState κ => t.cap = s.cap) (onKernel x) :=
  Keeps.zoom (R := fun _ _ => True) (fun _ => trivial) fun _ _ _ => rfl

/-- The change of the capabilities after the mount is the one a reset can make. -/
theorem cdpMount_switches {cap : Cap} (hone : cap.l3cas = [c]) {seen : Bool}
    (hseen : seen = c.cdpOn ∨ (seen = false ∧ cfg = .requireCdpAny)) :
    ∃ c', (capL3cdpChange seen (cdpMount cfg seen) cap).l3cas = [c'] ∧ Switches c cfg c' := by
  rw [l3cas_l3cdpChange, hone]
  refine ⟨_, rfl, ?_⟩
  rcases hseen with rfl | ⟨rfl, rfl⟩
  · cases cfg with
    | requireCdpOff => exact .off
    | requireCdpOn => exact .on
    | requireCdpAny =>
      rw [cdpMount, cdpChange_self]
      exact .same _
  · rw [cdpMount, cdpChange_self]
    exact .same _

theorem osRemounted_cap {prev next : Bool} {s : LibState κ} :
    (final ((osRemounted p rctl prev next).run s)).cap = capL3cdpChange prev next s.cap := by
  have hlast : ∀ s : LibState κ, (final ((do
      let s ← get
      onKernel (osAllocPrep (p.at s) rctl) : EStateM Err (LibState κ) Unit).run s)).cap
        = s.cap := by
    intro s
    rw [get_bind]
    exact onKernel_cap _ s
  unfold osRemounted
  by_cases h : next = prev
  · subst h
    rw [if_pos rfl, capL3cdpChange_self]
    exact hlast s
  · rw [if_neg h]
    exact hlast { s with cap := capL3cdpChange prev next s.cap }

theorem osAllocReset_l3cas {s : LibState κ} (hone : s.cap.l3cas = [c]) :
    ∃ c', (final ((osAllocReset p fs rctl cfg).run s)).cap.l3cas = [c'] ∧ Switches c cfg c' := by
  have hsame : ∀ {t : LibState κ}, t.cap = s.cap → ∃ c', t.cap.l3cas = [c'] ∧ Switches c cfg c' :=
    fun ht => ⟨c, by rw [ht, hone], .same cfg⟩
  -- nothing on the way to the mount changes the capabilities
  have hstep : ∀ {x : EStateM Err κ Unit} {f : Unit → EStateM Err (LibState κ) Unit}
      {u : LibState κ}, u.cap = s.cap →
      (∀ v : LibState κ, v.cap = s.cap →
        ∃ c', (final ((f ()).run v)).cap.l3cas = [c'] ∧ Switches c cfg c') →
      ∃ c', (final ((onKernel x >>= f).run u)).cap.l3cas = [c'] ∧ Switches c cfg c' :=
    fun hu hf => final_bind (P := fun t => ∃ c', t.cap.l3cas = [c'] ∧ Switches c cfg c')
      (fun e v hx => hsame (((onKernel_cap _).of_error hx).trans hu))
      fun _ v hx => hf v (((onKernel_cap _).of_ok hx).trans hu)
  unfold osAllocReset
  rw [get_bind]
  simp only [final_failIf_bind]
  split_ifs with h1 h2 h3
  · exact hsame rfl
  · exact hsame rfl
  · exact hsame rfl
  · refine hstep rfl fun u hu => hstep hu fun u hu => hstep hu fun u hu => ?_
    rw [osRemounted_cap, hu]
    refine cdpMount_switches hone ?_
    cases hl : (p.at s).capGetType CapItem.l3ca? with
    | error e =>
      refine Or.inr ⟨rfl, ?_⟩
      by_contra hcfg
      exact h2 ⟨by rw [hl]; rfl, hcfg⟩
    | ok d =>
      obtain rfl := capGetType_l3ca (p := p.at s) hone hl
      exact Or.inl rfl

variable (p fs rctl cfg) in
/-- The step lemma: one reset, on either interface, failed or not. -/
theorem pqosAllocReset_l3cas {s : LibState κ} (hone : s.cap.l3cas = [c]) :
    ∃ c', (final ((pqosAllocReset p fs rctl cfg).run s)).cap.l3cas = [c'] ∧ Switches c cfg c' := by
  unfold pqosAllocReset
  rw [final_failIf_bind]
  split_ifs
  · exact ⟨c, hone, .same cfg⟩
  · cases p.interface with
    | os => exact osAllocReset_l3cas hone
    | msr =>
      show ∃ c', (final ((_ : EStateM Err (LibState κ) Unit).run s)).cap.l3cas = [c'] ∧ _
      rw [get_bind]
      refine final_bind (P := fun t : LibState κ => ∃ c', t.cap.l3cas = [c'] ∧ Switches c cfg c')
        ?_ ?_
      · intro e u hx
        obtain ⟨m, -, rfl⟩ := zoom_error.1 hx
        exact ⟨c, hone, .same cfg⟩
      · intro cap u hx
        obtain ⟨m, hm, rfl⟩ := zoom_ok.1 hx
        exact hwAllocReset_l3cas (p := p.at s) hone hm

end Step

/-! ## Runs -/

section Runs

variable {κ : Type} {p : Platform} {fs : Resctrl κ} {rctl : RctlMount κ}

/-- The classes times the registers of each are the `h` that the hardware has. -/
def CapL3ca.KeepsCount (h : Nat) (c : CapL3ca) : Prop :=
  c.numClasses * (if c.cdpOn then 2 else 1) = h

variable {n h : Nat} {c c' : CapL3ca} {cfg : CdpConfig}

/-- An even count survives a switch. -/
theorem Switches.keepsCount (hsw : Switches c cfg c') (hh : h < 2 ^ 32) (heven : 2 ∣ h)
    (hc : c.KeepsCount h) : c'.KeepsCount h := by
  unfold CapL3ca.KeepsCount at hc ⊢
  cases hsw with
  | same => exact hc
  | on =>
    cases hon : c.cdpOn with
    | true =>
      rw [cdpChange_self]
      exact hc
    | false =>
      rw [hon] at hc
      simp only [CapL3ca.cdpChange, Bool.not_false, Bool.and_self, if_true, Bool.false_eq_true,
        if_false] at hc ⊢
      omega
  | off =>
    cases hon : c.cdpOn with
    | false =>
      rw [cdpChange_self]
      exact hc
    | true =>
      rw [hon] at hc
      simp only [CapL3ca.cdpChange, Bool.not_true, Bool.not_false, Bool.and_self, if_true, if_false,
        Bool.false_eq_true] at hc ⊢
      omega

/-- With CDP off before and after, a reset changes nothing. -/
theorem Switches.eq_of_off (h : Switches c cfg c') (hc : c.cdpOn = false)
    (hc' : c'.cdpOn = false) : c' = c := by
  cases h with
  | same => rfl
  | on =>
    rw [cdpChange_cdpOn] at hc'
    cases hc'
  | off => rw [hc, cdpChange_self]

theorem Switches.stays_off (h : Switches c cfg c') (hc : c.cdpOn = false)
    (hcfg : cfg ≠ .requireCdpOn) : c'.cdpOn = false := by
  cases h with
  | same => exact hc
  | on => exact absurd rfl hcfg
  | off => exact cdpChange_cdpOn c false

/-- What holds of an L3 capability in a state: the library holds one at most. -/
def LibState.L3 (s : LibState κ) (P : CapL3ca → Prop) : Prop := ∀ c ∈ s.cap.l3cas, P c

def CapL3ca.CdpOff (c : CapL3ca) : Prop := c.cdpOn = false

/-- What holds of the L3 capability at first and is kept by a switch holds in every state. -/
theorem resetStates_invariant {I : CapL3ca → Prop} {calls : List CdpConfig}
    (hI : ∀ cfg ∈ calls, ∀ c c', Switches c cfg c' → I c → I c') :
    ∀ {s : LibState κ}, s.cap.l3cas = [c] → I c →
      ∀ u ∈ resetStates p fs rctl calls s, ∃ c', u.cap.l3cas = [c'] ∧ I c' := by
  induction calls generalizing c with
  | nil =>
    intro s hone hc u hu
    rw [resetStates, List.mem_singleton] at hu
    exact hu ▸ ⟨c, hone, hc⟩
  | cons cfg calls ih =>
    intro s hone hc u hu
    rw [resetStates, List.mem_cons] at hu
    rcases hu with rfl | hu
    · exact ⟨c, hone, hc⟩
    · obtain ⟨c', hone', hsw⟩ := pqosAllocReset_l3cas p fs rctl cfg hone
      exact ih (fun cfg hcfg => hI cfg (List.mem_cons_of_mem _ hcfg)) hone'
        (hI cfg List.mem_cons_self c c' hsw hc) u hu

/-- A run in which CDP is off throughout leaves the capability as it was. -/
theorem resetStates_of_off {calls : List CdpConfig} :
    ∀ {s : LibState κ}, s.cap.l3cas = [c] →
      (∀ u ∈ resetStates p fs rctl calls s, u.L3 CapL3ca.CdpOff) →
      ∀ u ∈ resetStates p fs rctl calls s, u.cap.l3cas = [c] := by
  induction calls with
  | nil =>
    intro s hone _ u hu
    rw [resetStates, List.mem_singleton] at hu
    exact hu ▸ hone
  | cons cfg calls ih =>
    intro s hone hoff u hu
    rw [resetStates, List.mem_cons] at hu
    rcases hu with rfl | hu
    · exact hone
    · obtain ⟨c', hone', hsw⟩ := pqosAllocReset_l3cas p fs rctl cfg hone
      have hnext : ∀ calls, final ((pqosAllocReset p fs rctl cfg).run s)
          ∈ resetStates p fs rctl calls
          (final ((pqosAllocReset p fs rctl cfg).run s)) := by
        intro calls
        cases calls <;> simp [resetStates]
      have hc : c.cdpOn = false :=
        hoff s (by simp [resetStates]) c (by simp [hone])
      have hc' : c'.cdpOn = false :=
        hoff _ (List.mem_cons_of_mem _ (hnext calls)) c' (by simp [hone'])
      rw [hsw.eq_of_off hc hc'] at hone'
      exact ih hone' (fun v hv => hoff v (List.mem_cons_of_mem _ hv)) u hu

end Runs

/-! ## The invariant -/

section Invariant

variable {κ : Type} {p : Platform} {fs : Resctrl κ} {rctl : RctlMount κ} {hw : Chip} {os : OsFiles}
  {s t : Msr} {found : Cap} {h : Nat} {s₀ : LibState κ} {calls : List CdpConfig}

/-- In a run from what discovery found, the classes of the capability times the registers of each
are always those of the hardware exactly when they are a 32-bit number and even, or CDP is never
on. It is never on when it is off at first and no reset asks for it. -/
theorem resetStates_keepsCount_iff (hrun : (discoverCapabilities p hw).run s = .ok found t)
    (hl3 : found.l3cas ≠ []) (hrep : L3Reported p hw s h)
    (hcap : s₀.cap = (discoverOsCapabilities p.interface os found).2) :
    ((∀ u ∈ resetStates p fs rctl calls s₀, u.L3 (CapL3ca.KeepsCount h))
      ↔ h < 2 ^ 32 ∧ (2 ∣ h ∨ ∀ u ∈ resetStates p fs rctl calls s₀, u.L3 CapL3ca.CdpOff))
    ∧ (s₀.L3 CapL3ca.CdpOff → CdpConfig.requireCdpOn ∉ calls →
      ∀ u ∈ resetStates p fs rctl calls s₀, u.L3 CapL3ca.CdpOff) := by
  obtain ⟨c, u, hc, hone⟩ := (discoverCapabilities_l3cas hrun).resolve_left hl3
  rw [← discoverOsCapabilities_l3cas p.interface os, ← hcap] at hone
  have hcount := discoverAllocL3_count hrep hc
  have hfirst : s₀ ∈ resetStates p fs rctl calls s₀ := by
    cases calls <;> simp [resetStates]
  refine ⟨⟨fun hkeep => ?_, fun ⟨hlt, hor⟩ u hu => ?_⟩, fun hoff hno u hu => ?_⟩
  · have hc₀ : c.KeepsCount h := hkeep s₀ hfirst c (by simp [hone])
    unfold CapL3ca.KeepsCount at hc₀
    refine ⟨?_, ?_⟩
    · cases hon : c.cdpOn <;> rw [hon] at hc₀ hcount <;>
        simp only [Bool.false_eq_true, if_true, if_false] at hc₀ hcount <;> omega
    · by_contra hodd
      push Not at hodd
      obtain ⟨hodd, u, hu, hon⟩ := hodd
      refine hon fun d hd => ?_
      have hd := hkeep u hu d hd
      unfold CapL3ca.KeepsCount at hd
      unfold CapL3ca.CdpOff
      cases hdon : d.cdpOn with
      | false => rfl
      | true =>
        rw [hdon, if_pos rfl] at hd
        exact absurd ⟨d.numClasses, by omega⟩ hodd
  · rcases hor with heven | hoff
    · have hc₀ : c.KeepsCount h := by
        unfold CapL3ca.KeepsCount
        cases hon : c.cdpOn <;> rw [hon] at hcount <;>
          simp only [Bool.false_eq_true, if_true, if_false] at hcount ⊢ <;> omega
      obtain ⟨d, hd, hkeep⟩ := resetStates_invariant
        (fun _ _ _ _ hsw => hsw.keepsCount hlt heven) hone hc₀ u hu
      intro d' hd'
      rw [hd, List.mem_singleton] at hd'
      exact hd' ▸ hkeep
    · intro d hd
      rw [resetStates_of_off hone hoff u hu, List.mem_singleton] at hd
      have hcoff : c.cdpOn = false := hoff s₀ hfirst c (by simp [hone])
      rw [hcoff, if_neg (by decide), Nat.mod_eq_of_lt hlt] at hcount
      rw [hd, CapL3ca.KeepsCount, hcoff, if_neg (by decide), hcount, Nat.mul_one]
  · obtain ⟨d, hd, hkeep⟩ := resetStates_invariant (I := CapL3ca.CdpOff)
      (fun cfg hcfg _ _ hsw hc => hsw.stays_off hc fun he => hno (he ▸ hcfg)) hone
      (hoff c (by simp [hone])) u hu
    intro d' hd'
    rw [hd, List.mem_singleton] at hd'
    exact hd' ▸ hkeep

end Invariant

/-! ## Two processors -/

/-- CPUID of a processor with four ways of L3 cache, and classes up to `highest`; CDP may be
switched. -/
def catChip (highest : BitVec 32) : Chip where
  lcpuid leaf sub :=
    if leaf = 0x7 then ⟨0, 0x8000, 0, 0⟩
    else if leaf = 0x10 ∧ sub = 0 then ⟨0, 2, 0, 0⟩
    else if leaf = 0x10 ∧ sub = 1 then ⟨3, 0, 4, highest⟩
    else ⟨0, 0, 0, 0⟩
  l3 := ⟨true, 4⟩
  l2 := ⟨false, 0⟩

/-- A kernel without resctrl. -/
def noFiles : OsFiles := ⟨none, none, false⟩

def noResctrl : Resctrl Unit := ⟨fun _ _ => throw (), fun _ _ _ => throw (), fun _ _ => false⟩

def noMount : RctlMount Unit := ⟨throw (), fun _ => throw (), fun _ _ => false, fun _ => throw ()⟩

/-- What the library holds on such a processor, before any reset. -/
def catState (numClasses : Nat) : LibState Unit :=
  ⟨⟨fun _ => 0, []⟩, (), [⟨false, .l3ca ⟨numClasses, 4, 0, true, false⟩⟩]⟩

theorem resetStates_keepsCount_iff_four :
    (discoverCapabilities (smallPlatform []) (catChip 3)).run ⟨fun _ => 0, []⟩
        = .ok (catState 4).cap ⟨fun _ => 0, [.rd 0 msrL3QosCfg]⟩
      ∧ ∀ u ∈ resetStates (smallPlatform []) noResctrl noMount
        [.requireCdpOn, .requireCdpOff, .requireCdpOn] (catState 4),
        u.L3 (CapL3ca.KeepsCount 4) := by
  have hrun : (discoverCapabilities (smallPlatform []) (catChip 3)).run ⟨fun _ => 0, []⟩
      = .ok (catState 4).cap ⟨fun _ => 0, [.rd 0 msrL3QosCfg]⟩ := rfl
  have hos : (catState 4).cap = (discoverOsCapabilities .msr noFiles (catState 4).cap).2 := rfl
  exact ⟨hrun, (resetStates_keepsCount_iff hrun (by decide) (.cpuid rfl) hos).1.2
    ⟨by decide, Or.inl (by decide)⟩⟩

/-- The count is kept whatever the processor reports. -/
def ClassCountKept : Prop :=
  ∀ (κ : Type) (p : Platform) (fs : Resctrl κ) (rctl : RctlMount κ) (hw : Chip) (os : OsFiles)
    (s t : Msr) (found : Cap) (h : Nat) (s₀ : LibState κ) (calls : List CdpConfig),
    (discoverCapabilities p hw).run s = .ok found t → found.l3cas ≠ [] → L3Reported p hw s h →
      s₀.cap = (discoverOsCapabilities p.interface os found).2 →
      ∀ u ∈ resetStates p fs rctl calls s₀, u.L3 (CapL3ca.KeepsCount h)

/-- Three classes are two after CDP was on. -/
theorem not_classCountKept : ¬ ClassCountKept := by
  intro hkeep
  have hu := hkeep Unit (smallPlatform []) noResctrl noMount (catChip 2) noFiles ⟨fun _ => 0, []⟩
    _ _ 3 (catState 3) [.requireCdpOn, .requireCdpOff] rfl (by decide) (.cpuid rfl) rfl
    _ (List.mem_cons_of_mem _ (List.mem_cons_of_mem _ List.mem_cons_self))
  have h3 : 2 * 1 = 3 := hu ⟨2, 4, 0, true, false⟩ List.mem_cons_self
  exact absurd h3 (by decide)

end Pqos
