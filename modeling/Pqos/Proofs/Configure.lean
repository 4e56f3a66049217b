import Pqos.Plan
import Pqos.Proofs.Validate
import Mathlib.Data.List.Pairwise

/-!
# What a run that succeeds leaves

A successful run on the MSR interface gives the grants of its plan and no others, so what a CPU's
class holds in the end is what the last grant defining it there wrote. The CPUs are served when no
two grants define one class differently in one place, and when every CPU is among those tried and
sits where its class is defined.
-/

namespace Pqos

open Prog Table

variable {p : Platform}

/-! ## Defining one class -/

section Define

variable {s t : Msr} {core classId : Nat}

theorem msrWrite_stored {reg : Nat} {w : Word} (h : (msrWrite p core reg w).run s = .ok () t) :
    t.mem = stored s.mem [(p.cpu.loc core reg, w)] := by
  rw [msrWrite_ok h]
  rfl

theorem hwL3caSet_stored (hfit : p.FitsBanks) {c : CapL3ca} {socket : Nat} {u : L3Masks}
    (hc : p.capGetType CapItem.l3ca? = .ok c) (hlt : classId < c.numClasses)
    (h : (hwL3caSet p socket [⟨classId, u⟩]).run s = .ok () t) :
    t.mem = stored s.mem (l3Regs u socket classId c) := by
  rcases l3Ready_or_rejects p socket [⟨classId, u⟩] with ⟨c', core, hready⟩ | ⟨e, hrej⟩
  · obtain rfl : c' = c := Except.ok.inj (hready.cap.symm.trans hc)
    obtain ⟨ci, hci, rfl, rfl⟩ := CpuInfo.getOneCore_ok hready.core
    have hreg := l3caReg_bank hfit hc hlt
    rw [hready.run, List.forM_eq_forM, List.forM_cons, bind_ok] at h
    obtain ⟨_, t', h, hnil⟩ := h
    cases hnil
    unfold l3caWrite l3Regs at *
    rcases hon : c'.cdpOn with _ | _ <;> rw [hon] at h hreg
    · rcases u with m | ⟨d, m⟩
      · rw [msrWrite_stored h, CpuInfo.loc_socket hci (Or.inl hreg)]
        rfl
      · cases h
    · rw [if_pos rfl, l3caWriteCdp, bind_ok] at h
      obtain ⟨_, s', hdata, hcode⟩ := h
      rw [msrWrite_stored hcode, msrWrite_stored hdata, CpuInfo.loc_socket hci (Or.inl hreg),
        CpuInfo.loc_socket hci (Or.inl (codeReg_bank hfit hc hlt hon))]
      simp only [if_true, stored_cons, stored_nil]
  · rw [hrej] at h
    cases h

theorem hwL2caSet_stored (hfit : p.FitsBanks) {l2id : Nat} {mask : BitVec 32}
    (h : (hwL2caSet p l2id [⟨classId, mask⟩]).run s = .ok () t) :
    t.mem = stored s.mem (l2Regs mask l2id classId) := by
  unfold hwL2caSet at h
  simp only [bind_ok, ofExcept_ok, failIf_ok] at h
  obtain ⟨n, _, ⟨hn, rfl⟩, _, _, ⟨hids, rfl⟩, core, _, ⟨hcore, rfl⟩, h⟩ := h
  obtain ⟨c, hc, rfl⟩ := l2caGetCosNum_ok.1 hn
  obtain ⟨ci, hci, rfl, rfl⟩ := CpuInfo.getOneByL2id_ok hcore
  have hcount := hfit.l2 c hc
  have hlt : classId < c.numClasses :=
    Nat.not_le.1 fun hle => hids ⟨_, List.mem_singleton_self _, hle⟩
  simp only [msrMbaMaskStart, msrL2caMaskStart] at hcount
  rw [List.forM_eq_forM, List.forM_cons, bind_ok] at h
  obtain ⟨_, t', h, hnil⟩ := h
  cases hnil
  rw [msrWrite_stored h, CpuInfo.loc_cluster hci]
  · rfl
  · simp only [l2caReg, msrL2caMaskStart]
    omega
  · simp only [l2caReg, msrL2caMaskStart, msrMbaMaskStart]
    omega

theorem hwMbaSet_stored (hfit : p.FitsBanks) {c : CapMba} {socket rate : Nat}
    {r : Option (List Mba)} (hc : p.capGetType CapItem.mba? = .ok c) (hlt : classId < c.numClasses)
    (h : (hwMbaSet p socket [⟨classId, rate⟩] true).run s = .ok r t) :
    t.mem = stored s.mem (mbaRegs (mbaDelay c rate) socket classId) := by
  unfold hwMbaSet at h
  simp only [bind_ok, ofExcept_ok, failIf_ok, if_true, map_ok] at h
  obtain ⟨c', _, ⟨hc', rfl⟩, _, _, ⟨-, rfl⟩, _, _, ⟨-, rfl⟩, core, _, ⟨hcore, rfl⟩, l, h, -⟩ := h
  obtain rfl : c' = c := Except.ok.inj (hc'.symm.trans hc)
  obtain ⟨ci, hci, rfl, rfl⟩ := CpuInfo.getOneCore_ok hcore
  have hcount := hfit.mba c' hc
  rw [List.mapM_cons, bind_ok] at h
  obtain ⟨_, t', h, hnil⟩ := h
  cases hnil
  unfold mbaWriteActual at h
  simp only [bind_ok] at h
  obtain ⟨_, s', hw, v, s'', hr, h⟩ := h
  cases h
  rw [(msrRead_ok hr).2, Msr.log_mem, msrWrite_stored hw, CpuInfo.loc_socket hci]
  · rfl
  · refine Or.inr (Or.inl ?_)
    simp only [mbaReg, msrMbaMaskStart]
    omega

end Define

section Cos

variable {cfg : RdtConfig} {ci : CoreInfo} {classId : Nat} {u v : RdtState Msr}

/-- One technology's part of a class is written, or there is no such class and nothing is. -/
theorem capForM_stored {α : Type} {type : CapItem → Option α} {num : α → Nat}
    {regs : α → List (Loc × Word)} {f : α → EStateM Errno (RdtState Msr) Unit}
    (hf : ∀ c, p.capGetType type = .ok c → (f c).run u = .ok () v →
      v.lib.mem = stored u.lib.mem (if classId < num c then regs c else []))
    (h : ((p.capGetType type).toOption.forM f).run u = .ok () v) :
    v.lib.mem = stored u.lib.mem (capRegs (p.capGetType type) num classId regs) := by
  rcases hc : p.capGetType type with e | c <;> rw [hc] at h
  · cases h
    rfl
  · exact hf c hc h

theorem cfgConfigureL3_stored (hfit : p.FitsBanks) {c : CapL3ca}
    (hc : p.capGetType CapItem.l3ca? = .ok c)
    (h : (cfgConfigureL3 (hwBackend p) cfg ci classId c).run u = .ok () v) :
    v.lib.mem = stored u.lib.mem
      (if classId < c.numClasses then l3Regs (cfg.l3Masks c) ci.socket classId c else []) := by
  unfold cfgConfigureL3 at h
  by_cases hlt : classId < c.numClasses
  · rw [if_pos hlt] at h ⊢
    obtain ⟨t, hset, rfl⟩ := libCall_ok.1 h
    unfold pqosL3caSet checkInit at hset
    simp only [bind_ok, failIf_ok] at hset
    obtain ⟨_, _, ⟨-, rfl⟩, _, _, ⟨-, rfl⟩, _, _, ⟨-, rfl⟩, hset⟩ := hset
    exact hwL3caSet_stored hfit hc hlt hset
  · rw [if_neg hlt] at h ⊢
    cases h
    rfl

theorem cfgConfigureL2_stored (hfit : p.FitsBanks) {c : CapL2ca}
    (h : (cfgConfigureL2 (hwBackend p) cfg ci classId c).run u = .ok () v) :
    v.lib.mem = stored u.lib.mem
      (if classId < c.numClasses then l2Regs (cfg.l2Mask c) ci.l2Id classId else []) := by
  unfold cfgConfigureL2 at h
  by_cases hlt : classId < c.numClasses
  · rw [if_pos hlt] at h ⊢
    obtain ⟨t, hset, rfl⟩ := libCall_ok.1 h
    unfold pqosL2caSet checkInit at hset
    simp only [bind_ok, failIf_ok] at hset
    obtain ⟨_, _, ⟨-, rfl⟩, _, _, ⟨-, rfl⟩, _, _, ⟨-, rfl⟩, hset⟩ := hset
    exact hwL2caSet_stored hfit hset
  · rw [if_neg hlt] at h ⊢
    cases h
    rfl

theorem cfgConfigureMba_stored (hfit : p.FitsBanks) {c : CapMba}
    (hc : p.capGetType CapItem.mba? = .ok c)
    (h : (cfgConfigureMba (hwBackend p) cfg ci classId c).run u = .ok () v) :
    v.lib.mem = stored u.lib.mem (if classId < c.numClasses then
      mbaRegs (mbaDelay c cfg.mbaRate) ci.socket classId else []) := by
  unfold cfgConfigureMba at h
  by_cases hlt : classId < c.numClasses
  · rw [if_pos hlt] at h ⊢
    rw [bind_ok] at h
    obtain ⟨r, w, h, hret⟩ := h
    cases hret
    obtain ⟨t, hset, rfl⟩ := libCall_ok.1 h
    unfold pqosMbaSet checkInit at hset
    simp only [bind_ok, failIf_ok] at hset
    obtain ⟨_, _, ⟨-, rfl⟩, _, _, ⟨-, rfl⟩, _, _, ⟨-, rfl⟩, hset⟩ := hset
    exact hwMbaSet_stored hfit hc hlt hset
  · rw [if_neg hlt] at h ⊢
    cases h
    rfl

/-- Defining a class writes its registers where the core sits. -/
theorem cfgConfigureCos_stored (hfit : p.FitsBanks) (hci : ci ∈ p.cpu.cores)
    (h : (cfgConfigureCos p (hwBackend p) cfg ci.lcore classId).run u = .ok () v) :
    v.lib.mem = stored u.lib.mem (classRegs p mbaDelay cfg classId ci) := by
  unfold cfgConfigureCos at h
  simp only [bind_ok, failIf_ok, ofOption_ok] at h
  obtain ⟨_, _, ⟨-, rfl⟩, ci', _, ⟨hinfo, rfl⟩, _, u₁, h3, _, u₂, h2, hm⟩ := h
  obtain rfl : ci = ci' := Option.some.inj ((CpuInfo.getCoreInfo_of_mem hci).symm.trans hinfo)
  rw [classRegs, stored_append, stored_append,
    ← capForM_stored (fun c hc => cfgConfigureL3_stored hfit hc) h3,
    ← capForM_stored (fun c _ => cfgConfigureL2_stored hfit) h2]
  exact capForM_stored (fun c hc => cfgConfigureMba_stored hfit hc) hm

end Cos

/-! ## One grant -/

section Grant

variable {cfg : RdtConfig} {id : Nat} {u v : RdtState Msr}

theorem resCores_eq : resCores p cfg id = (resInfos p cfg id).map CoreInfo.lcore := rfl

theorem mem_resInfos {ci : CoreInfo} : ci ∈ resInfos p cfg id ↔
    ci ∈ p.cpu.cores ∧ scopeId cfg.technology ci = id
      ∧ cfg.cpumask.getLsbD ci.lcore = true := by
  simp [resInfos]

/-- The class an assignment gives is the plan's. -/
theorem hwAllocAssign_freeClass {technology c : Nat} {l : List Nat} {s t : Msr} (hne : l ≠ [])
    (hid : OnEntity p technology id l)
    (h : (hwAllocAssign p technology l).run s = .ok c t) :
    freeClass p technology id s.cos = some c ∧ BelowCounts p technology c ∧ c ≠ 0
      ∧ Moved l c s t ∧ c < 2 ^ 32 := by
  obtain ⟨id', hi, hid', hhi, h1, hle, hfree, hmax, hmoved⟩ := hwAllocAssign_ok h
  obtain ⟨hbelow, hlt⟩ := getHiCosId_below hhi hle
  -- the entity the cores are found to share is the one they are known to be on
  obtain ⟨core, hcore⟩ := List.exists_mem_of_ne_nil l hne
  obtain ⟨a, ha, hacore⟩ := hid core hcore
  obtain ⟨a', ha', hacore'⟩ := hid' core hcore
  obtain rfl : a' = a :=
    List.inj_on_of_nodup_map p.cpu.nodup ha'.1 ha.1 (hacore'.trans hacore.symm)
  obtain rfl : id' = id := ha'.2.symm.trans ha.2
  refine ⟨?_, hbelow, by omega, hmoved, hlt⟩
  unfold freeClass
  rw [hhi]
  refine findUnused_ok.2 ⟨h1, hle, fun hused => ?_, fun d hcd hdh => ?_⟩
  · rw [List.mem_filter, List.mem_map] at hused
    obtain ⟨⟨lcore, hlcore, hcos⟩, -⟩ := hused
    obtain ⟨k, hk, rfl⟩ := mem_getCoresPerTopologyObj.1 hlcore
    exact hfree k hk hcos
  · obtain ⟨k, hk, hkd⟩ := hmax d hcd hdh
    rw [List.mem_filter, List.mem_map]
    exact ⟨⟨k.lcore, mem_getCoresPerTopologyObj.2 ⟨k, hk, rfl⟩, hkd⟩, by simpa using hdh⟩

theorem mem_capRegs {α : Type} {type : CapItem → Option α} {num : α → Nat} {classId : Nat}
    {regs : α → List (Loc × Word)} {e : Loc × Word} :
    e ∈ capRegs (p.capGetType type) num classId regs
      ↔ ∃ c, p.capGetType type = .ok c ∧ classId < num c ∧ e ∈ regs c := by
  rcases hc : p.capGetType type with err | c
  · simp [capRegs]
  · simp only [capRegs, Except.ok.injEq, exists_eq_left']
    split_ifs with hlt <;> simp [hlt]

/-- No register of a class is one core's own. -/
theorem classRegs_ne_core {delay : CapMba → Nat → Nat} {classId : Nat} {ci : CoreInfo}
    {e : Loc × Word} (he : e ∈ classRegs p delay cfg classId ci) (k reg : Nat) :
    e.1 ≠ .core k reg := by
  simp only [classRegs, List.mem_append, mem_capRegs] at he
  rcases he with (⟨c, -, -, he⟩ | ⟨c, -, -, he⟩) | ⟨c, -, -, he⟩
  · unfold l3Regs at he
    split_ifs at he
    · rcases List.mem_cons.1 he with rfl | he
      · simp
      · rw [List.mem_singleton.1 he]
        simp
    · rw [List.mem_singleton.1 he]
      simp
  · rw [List.mem_singleton.1 he]
    simp
  · rw [List.mem_singleton.1 he]
    simp

theorem Moved.give {l : List Nat} {a : Grant} {s t : Msr} (h : Moved l a.classId s t)
    (hl : l = a.members.map CoreInfo.lcore) (hc : a.classId < 2 ^ 32) : t.cos = a.give s.cos := by
  funext k
  unfold Grant.give
  rw [← hl]
  by_cases hk : k ∈ l
  · rw [if_pos hk]
    exact h.cos hc hk
  · rw [if_neg hk]
    exact h.cos_other hk

/-- Under an id where the configuration has CPUs, a successful step is a grant of the plan. -/
theorem cfgSetId_grant (hfit : p.FitsBanks) {first : CoreInfo} {rest : List CoreInfo}
    (hres : resInfos p cfg id = first :: rest)
    (h : (cfgSetId p (hwBackend p) cfg id).run u = .ok () v) :
    ∃ c, freeClass p cfg.technology id u.lib.cos = some c ∧ BelowCounts p cfg.technology c ∧ c ≠ 0
      ∧ v.lib.cos = Grant.give u.lib.cos ⟨cfg, first, rest, c⟩
      ∧ ∀ l, (∀ k reg, l ≠ .core k reg) →
        v.lib.mem l = stored u.lib.mem (Grant.written p ⟨cfg, first, rest, c⟩) l := by
  unfold cfgSetId at h
  rw [resCores_eq, hres, List.map_cons] at h
  simp only [bind_ok] at h
  obtain ⟨c, u₁, hassign, hdefine⟩ := h
  obtain ⟨t, hrun, rfl⟩ := libCall_ok.1 hassign
  unfold pqosAllocAssign checkInit at hrun
  simp only [bind_ok, failIf_ok] at hrun
  obtain ⟨_, _, ⟨-, rfl⟩, _, _, ⟨-, rfl⟩, hrun⟩ := hrun
  have hfirst : first ∈ resInfos p cfg id := by simp [hres]
  have hid : OnEntity p cfg.technology id ((first :: rest).map CoreInfo.lcore) := by
    intro core hcore
    rw [← hres] at hcore
    obtain ⟨ci, hci, rfl⟩ := List.mem_map.1 hcore
    obtain ⟨hmem, hscope, -⟩ := mem_resInfos.1 hci
    exact ⟨ci, ⟨hmem, hscope⟩, rfl⟩
  obtain ⟨hfree, hbelow, hne, hmoved, hlt⟩ :=
    hwAllocAssign_freeClass (List.cons_ne_nil _ _) hid hrun
  have hmem := cfgConfigureCos_stored hfit (mem_resInfos.1 hfirst).1 hdefine
  refine ⟨c, hfree, hbelow, hne, ?_, fun l hl => ?_⟩
  · rw [← hmoved.give (a := ⟨cfg, first, rest, c⟩) rfl hlt]
    funext k
    rw [Msr.cos, Msr.assoc, hmem, stored_of_forall_ne fun e he => classRegs_ne_core he _ _]
    rfl
  · rw [hmem]
    exact stored_congr (hmoved.frame l fun k _ => hl k _)

end Grant

/-! ## The grants of a run -/

/-- Between `s` and `t` the grants `gs` were given and nothing else happened to the classes. -/
structure Granted (p : Platform) (steps : List (RdtConfig × Nat)) (s t : Msr) (gs : List Grant) :
    Prop where
  planned : plan p s.cos steps = some gs
  below : ∀ a ∈ gs, BelowCounts p a.cfg.technology a.classId ∧ a.classId ≠ 0
  cos : t.cos = gs.foldl Grant.give s.cos
  regs : ∀ l, (∀ k reg, l ≠ .core k reg) → t.mem l = stored s.mem (gs.flatMap (Grant.written p)) l

section Run

/-- A loop in a loop is one loop over the pairs. -/
theorem forM_forM_ok {ε σ α β : Type} {f : α → β → EStateM ε σ PUnit} {m : α → List β} :
    ∀ {l : List α} {s t : σ}, (l.forM fun a => (m a).forM (f a)).run s = .ok ⟨⟩ t →
      ((l.flatMap fun a => (m a).map (a, ·)).forM fun ab => f ab.1 ab.2).run s = .ok ⟨⟩ t
  | [], _, _, h => h
  | a :: l, s, t, h => by
    rw [List.forM_eq_forM, List.forM_cons, bind_ok] at h
    obtain ⟨_, s', ha, h⟩ := h
    have hmap : (((m a).map (a, ·)).forM fun ab => f ab.1 ab.2).run s = .ok ⟨⟩ s' := by
      rwa [List.forM_eq_forM, List.forM_map]
    rw [List.flatMap_cons, forM_append_ok hmap]
    exact forM_forM_ok h

theorem steps_granted (hfit : p.FitsBanks) :
    ∀ {steps : List (RdtConfig × Nat)} {u v : RdtState Msr},
      (steps.forM fun st => cfgSetId p (hwBackend p) st.1 st.2).run u = .ok () v →
      ∃ gs, Granted p steps u.lib v.lib gs
  | [], u, v, h => by
    cases h
    exact ⟨[], rfl, by simp, rfl, fun _ _ => rfl⟩
  | (cfg, id) :: steps, u, v, h => by
    rw [List.forM_eq_forM, List.forM_cons, bind_ok] at h
    obtain ⟨_, u₁, hstep, h⟩ := h
    obtain ⟨gs, hgs⟩ := steps_granted hfit h
    rcases hres : resInfos p cfg id with _ | ⟨first, rest⟩
    · unfold cfgSetId at hstep
      rw [resCores_eq, hres, List.map_nil] at hstep
      cases hstep
      exact ⟨gs, by rw [plan, hres]; exact hgs.planned, hgs.below, hgs.cos, hgs.regs⟩
    · obtain ⟨c, hfree, hbelow, hne, hcos, hregs⟩ := cfgSetId_grant hfit hres hstep
      refine ⟨⟨cfg, first, rest, c⟩ :: gs, ?_, fun a ha => ?_, ?_, fun l hl => ?_⟩
      · have hplan := hgs.planned
        rw [hcos] at hplan
        rw [plan, hres]
        simp only [hfree, hplan, Option.bind_eq_bind, Option.bind_some, Option.pure_def]
      · rcases List.mem_cons.1 ha with rfl | ha
        · exact ⟨hbelow, hne⟩
        · exact hgs.below a ha
      · rw [hgs.cos, hcos, List.foldl_cons]
      · rw [hgs.regs l hl, List.flatMap_cons, stored_append]
        exact stored_congr (hregs l hl)

theorem configureFrom_ok {σ : Type} {b : Backend σ} {tasks : List Nat} :
    ∀ {config done : List RdtConfig} {u v : RdtState σ},
      (configureFrom p b tasks done config).run u = .ok () v →
      (config.forM (cfgSet p b tasks)).run u = .ok () v
  | [], _, _, _, h => h
  | cfg :: config, done, u, v, h => by
    unfold configureFrom at h
    simp only [bind_ok, onError_ok] at h
    obtain ⟨_, u', hset, h⟩ := h
    rw [List.forM_eq_forM, List.forM_cons, bind_of_ok hset]
    exact configureFrom_ok h

theorem cfgSet_ids {tasks : List Nat} {cfg : RdtConfig} (hcfg : cfg.pidCfg = false)
    {u v : RdtState Msr} (h : (cfgSet p (hwBackend p) tasks cfg).run u = .ok () v) :
    ((List.range (getMaxResId p cfg.technology)).forM (cfgSetId p (hwBackend p) cfg)).run u
      = .ok () v := by
  unfold cfgSet at h
  rw [if_neg (by simp [hcfg])] at h
  change (cfgSetCoresMsr p (hwBackend p) cfg).run u = .ok () v at h
  unfold cfgSetCoresMsr at h
  simp only [bind_ok, failIf_ok] at h
  obtain ⟨_, _, ⟨-, rfl⟩, h⟩ := h
  exact h

theorem forM_cfgSet_ids {tasks : List Nat} :
    ∀ {config : List RdtConfig} {u v : RdtState Msr}, (∀ cfg ∈ config, cfg.pidCfg = false) →
      (config.forM (cfgSet p (hwBackend p) tasks)).run u = .ok () v →
      (config.forM fun cfg => (List.range (getMaxResId p cfg.technology)).forM
        (cfgSetId p (hwBackend p) cfg)).run u = .ok () v
  | [], _, _, _, h => h
  | cfg :: config, u, v, hcores, h => by
    rw [List.forM_eq_forM, List.forM_cons, bind_ok] at h ⊢
    obtain ⟨_, u', hset, h⟩ := h
    exact ⟨_, u', cfgSet_ids (hcores cfg List.mem_cons_self) hset,
      forM_cfgSet_ids (fun c hc => hcores c (List.mem_cons_of_mem cfg hc)) h⟩

end Run

/-! ## Who is in a grant -/

section Plan

variable {config : List RdtConfig} {gs : List Grant} {f : Nat → Nat}

/-- No core is in both. -/
def Apart (l m : List CoreInfo) : Prop := ∀ a ∈ l, ∀ b ∈ m, a.lcore ≠ b.lcore

/-- A grant for every step that has CPUs, and no other. -/
theorem plan_shape : ∀ {steps : List (RdtConfig × Nat)} {f : Nat → Nat} {gs : List Grant},
    plan p f steps = some gs → gs.map (fun a => (a.cfg, a.members))
      = (steps.map fun st => (st.1, resInfos p st.1 st.2)).filter fun m => m.2 ≠ []
  | [], _, _, h => by
    cases h
    rfl
  | (cfg, id) :: steps, f, gs, h => by
    rw [plan] at h
    rcases hres : resInfos p cfg id with _ | ⟨first, rest⟩ <;> rw [hres] at h
    · rw [plan_shape h, List.map_cons, hres]
      rfl
    · simp only [Option.bind_eq_bind, Option.bind_eq_some_iff, Option.pure_def,
        Option.some.injEq] at h
      obtain ⟨c, -, gs', hgs', rfl⟩ := h
      rw [List.map_cons, plan_shape hgs', List.map_cons, hres]
      rfl

theorem not_both_named {c d : RdtConfig} (h : c.cpumask &&& d.cpumask = 0) {lcore : Nat}
    (hc : c.cpumask.getLsbD lcore = true) : ¬ d.cpumask.getLsbD lcore = true := by
  intro hd
  have hboth := BitVec.getLsbD_and (x := c.cpumask) (y := d.cpumask) (i := lcore)
  rw [h, hc, hd, BitVec.ofNat_eq_ofNat, BitVec.getLsbD_zero] at hboth
  cases hboth

/-- A core is named by one configuration only. -/
theorem named_unique (hover : config.Pairwise fun c d => c.cpumask &&& d.cpumask = 0)
    {c d : RdtConfig} (hc : c ∈ config) (hd : d ∈ config) {lcore : Nat}
    (hcl : c.cpumask.getLsbD lcore = true) (hdl : d.cpumask.getLsbD lcore = true) : c = d := by
  by_contra hne
  have hsymm : Std.Symm fun c d : RdtConfig => c.cpumask &&& d.cpumask = 0 :=
    ⟨fun c d h => by rwa [BitVec.and_comm]⟩
  exact not_both_named (hover.forall hc hd hne) hcl hdl

theorem resInfos_apart {cfg : RdtConfig} {id id' : Nat} (hne : id ≠ id') :
    Apart (resInfos p cfg id) (resInfos p cfg id') := by
  intro a ha b hb hab
  obtain ⟨ha, hida, -⟩ := mem_resInfos.1 ha
  obtain ⟨hb, hidb, -⟩ := mem_resInfos.1 hb
  rw [List.inj_on_of_nodup_map p.cpu.nodup ha hb hab] at hida
  exact hne (hida.symm.trans hidb)

theorem idSteps_apart (hover : config.Pairwise fun c d => c.cpumask &&& d.cpumask = 0) :
    (idSteps p config).Pairwise fun st st' =>
      Apart (resInfos p st.1 st.2) (resInfos p st'.1 st'.2) := by
  refine List.pairwise_flatMap.2 ⟨fun cfg _ => ?_, hover.imp fun {c d} h st hst st' hst' => ?_⟩
  · rw [List.pairwise_map]
    exact List.nodup_range.imp fun hne => resInfos_apart hne
  · obtain ⟨id, -, rfl⟩ := List.mem_map.1 hst
    obtain ⟨id', -, rfl⟩ := List.mem_map.1 hst'
    intro a ha b hb hab
    have hd := (mem_resInfos.1 hb).2.2
    rw [← hab] at hd
    exact not_both_named h (mem_resInfos.1 ha).2.2 hd

theorem grants_apart (hover : config.Pairwise fun c d => c.cpumask &&& d.cpumask = 0)
    (h : plan p f (idSteps p config) = some gs) :
    gs.Pairwise fun a b => Apart a.members b.members := by
  have hpairs : (gs.map fun a => (a.cfg, a.members)).Pairwise fun m m' => Apart m.2 m'.2 := by
    rw [plan_shape h]
    exact List.Pairwise.filter _ (List.pairwise_map.2 (idSteps_apart hover))
  rw [List.pairwise_map] at hpairs
  exact hpairs

/-- Who a grant is for, and under which id. -/
theorem grant_members (h : plan p f (idSteps p config) = some gs) {a : Grant} (ha : a ∈ gs) :
    a.cfg ∈ config ∧ ∃ id < getMaxResId p a.cfg.technology, a.members = resInfos p a.cfg id := by
  have hmem := List.mem_map_of_mem (f := fun a : Grant => (a.cfg, a.members)) ha
  rw [plan_shape h, List.mem_filter, List.mem_map] at hmem
  obtain ⟨⟨st, hst, heq⟩, -⟩ := hmem
  obtain ⟨cfg, hcfg, hst⟩ := List.mem_flatMap.1 hst
  obtain ⟨id, hid, rfl⟩ := List.mem_map.1 hst
  obtain ⟨hc, hm⟩ := Prod.mk.inj heq
  simp only at hc hm
  rw [← hc]
  exact ⟨hcfg, id, List.mem_range.1 hid, hm.symm⟩

/-- A CPU whose id is tried is in a grant of its configuration. -/
theorem exists_grant (h : plan p f (idSteps p config) = some gs) {cfg : RdtConfig}
    (hcfg : cfg ∈ config) {ci : CoreInfo} (hci : ci ∈ p.cpu.cores)
    (hnamed : cfg.cpumask.getLsbD ci.lcore = true)
    (hid : scopeId cfg.technology ci < getMaxResId p cfg.technology) :
    ∃ a ∈ gs, a.cfg = cfg ∧ ci ∈ a.members := by
  have hres : ci ∈ resInfos p cfg (scopeId cfg.technology ci) := mem_resInfos.2 ⟨hci, rfl, hnamed⟩
  have hmem : (cfg, resInfos p cfg (scopeId cfg.technology ci))
      ∈ gs.map fun a => (a.cfg, a.members) := by
    rw [plan_shape h, List.mem_filter, List.mem_map]
    refine ⟨⟨(cfg, scopeId cfg.technology ci), ?_, rfl⟩, by simpa using List.ne_nil_of_mem hres⟩
    exact List.mem_flatMap.2 ⟨cfg, hcfg, List.mem_map.2 ⟨_, List.mem_range.2 hid, rfl⟩⟩
  obtain ⟨a, ha, heq⟩ := List.mem_map.1 hmem
  obtain ⟨hc, hm⟩ := Prod.mk.inj heq
  exact ⟨a, ha, hc, hm ▸ hres⟩

/-! ## Classes after the grants -/

theorem foldl_give_of_notMem {k : Nat} {gs : List Grant} {f : Nat → Nat}
    (h : ∀ a ∈ gs, k ∉ a.members.map CoreInfo.lcore) : gs.foldl Grant.give f k = f k := by
  induction gs generalizing f with
  | nil => rfl
  | cons a gs ih =>
    rw [List.foldl_cons, ih fun b hb => h b (List.mem_cons_of_mem a hb)]
    exact if_neg (h a List.mem_cons_self)

theorem foldl_give_of_mem {k : Nat} {a : Grant} (hk : k ∈ a.members.map CoreInfo.lcore)
    {gs : List Grant} {f : Nat → Nat} (hapart : gs.Pairwise fun a b => Apart a.members b.members)
    (ha : a ∈ gs) : gs.foldl Grant.give f k = a.classId := by
  induction gs generalizing f with
  | nil => cases ha
  | cons b gs ih =>
    obtain ⟨hb, hgs⟩ := List.pairwise_cons.1 hapart
    rw [List.foldl_cons]
    rcases List.mem_cons.1 ha with rfl | ha
    · rw [foldl_give_of_notMem fun c hc hkc => ?_]
      · exact if_pos hk
      · obtain ⟨x, hx, rfl⟩ := List.mem_map.1 hk
        obtain ⟨y, hy, hxy⟩ := List.mem_map.1 hkc
        exact hb c hc x hx y hy hxy.symm
    · exact ih hgs ha

end Plan

/-! ## Registers of different classes -/

section Regs

variable {cfg : RdtConfig} {classId : Nat} {ci : CoreInfo} {delay delay' : CapMba → Nat → Nat}
  {e : Loc × Word}

/-- The class a register of the banks belongs to. -/
def regClass (cdpOn : Bool) : Loc → Nat
  | .core _ reg => reg
  | .cluster _ reg => reg - msrL2caMaskStart
  | .socket _ reg =>
    if msrMbaMaskStart ≤ reg then reg - msrMbaMaskStart
    else if cdpOn then (reg - msrL3caMaskStart) / 2
    else reg - msrL3caMaskStart

/-- The L3 part, the L2 part or the MBA part of a class. -/
theorem mem_classRegs : e ∈ classRegs p delay cfg classId ci ↔
    (∃ c, p.capGetType CapItem.l3ca? = .ok c ∧ classId < c.numClasses
        ∧ e ∈ l3Regs (cfg.l3Masks c) ci.socket classId c)
      ∨ (∃ c, p.capGetType CapItem.l2ca? = .ok c ∧ classId < c.numClasses
        ∧ e = (.cluster ci.l2Id (l2caReg classId), (cfg.l2Mask c).setWidth 64))
      ∨ ∃ c, p.capGetType CapItem.mba? = .ok c ∧ classId < c.numClasses
        ∧ e = (.socket ci.socket (mbaReg classId), BitVec.ofNat 64 (delay c cfg.mbaRate)) := by
  simp only [classRegs, List.mem_append, mem_capRegs, l2Regs, mbaRegs, List.mem_singleton,
    or_assoc]

theorem regClass_l3 (cdpOn : Bool) (socket : Nat) {reg : Nat} (h : reg ≤ msrL3caMaskEnd) :
    reg < msrMbaMaskStart ∧ regClass cdpOn (.socket socket reg)
      = if cdpOn then (reg - msrL3caMaskStart) / 2 else reg - msrL3caMaskStart := by
  have hlt : reg < msrMbaMaskStart := Nat.lt_of_le_of_lt h (by decide)
  exact ⟨hlt, by rw [regClass, if_neg (Nat.not_le.2 hlt)]⟩

theorem l3Regs_bank (hfit : p.FitsBanks) {c : CapL3ca} {u : L3Masks} {socket : Nat}
    (hc : p.capGetType CapItem.l3ca? = .ok c) (hlt : classId < c.numClasses)
    (he : e ∈ l3Regs u socket classId c) :
    ∃ reg, e.1 = .socket socket reg ∧ reg < msrMbaMaskStart
      ∧ regClass c.cdpOn (.socket socket reg) = classId := by
  have hcount := hfit.l3 c hc
  have hreg := l3caReg_bank hfit hc hlt
  unfold l3Regs at he
  rcases hon : c.cdpOn with _ | _ <;> rw [hon] at he hcount hreg
  · obtain ⟨hmba, hclass⟩ := regClass_l3 false socket hreg.2
    rw [List.mem_singleton.1 he]
    refine ⟨_, rfl, hmba, hclass.trans ?_⟩
    simp only [msrL3caMaskStart, msrL3caMaskEnd, Bool.false_eq_true, if_false] at hcount
    rw [if_neg (by decide), l3caReg, if_neg (by decide)]
    unfold msrL3caMaskStart
    omega
  · have hcode := codeReg_bank hfit hc hlt hon
    simp only [msrL3caMaskStart, msrL3caMaskEnd, if_true] at hcount
    rcases List.mem_cons.1 he with rfl | he
    · obtain ⟨hmba, hclass⟩ := regClass_l3 true socket hreg.2
      refine ⟨_, rfl, hmba, hclass.trans ?_⟩
      rw [if_pos rfl, l3caReg, if_pos rfl]
      unfold msrL3caMaskStart
      omega
    · obtain ⟨hmba, hclass⟩ := regClass_l3 true socket hcode.2
      rw [List.mem_singleton.1 he]
      refine ⟨_, rfl, hmba, hclass.trans ?_⟩
      rw [if_pos rfl, l3caReg, if_pos rfl]
      unfold msrL3caMaskStart
      omega

/-- A register says whose class it is. -/
theorem regClass_of_mem (hfit : p.FitsBanks) (he : e ∈ classRegs p delay cfg classId ci) :
    regClass (p.l3caCdpEnabled.toOption.getD false) e.1 = classId := by
  rcases mem_classRegs.1 he with ⟨c, hc, hlt, he⟩ | ⟨c, hc, hlt, rfl⟩ | ⟨c, hc, hlt, rfl⟩
  · obtain ⟨reg, hreg, -, hclass⟩ := l3Regs_bank hfit hc hlt he
    rw [l3caCdpEnabled_ok.2 ⟨c, hc, rfl⟩, hreg]
    exact hclass
  · have hbank := hfit.l2 c hc
    simp only [msrMbaMaskStart, msrL2caMaskStart] at hbank
    simp only [regClass, l2caReg, msrL2caMaskStart]
    omega
  · have hbank := hfit.mba c hc
    have hge : msrMbaMaskStart ≤ mbaReg classId := by
      simp only [mbaReg, msrMbaMaskStart]
      omega
    rw [regClass, if_pos hge]
    simp only [mbaReg, msrMbaMaskStart]
    omega

/-- What the part that is MBA's holds. -/
theorem mba_of_mem (hfit : p.FitsBanks) (he : e ∈ classRegs p delay cfg classId ci)
    {socket reg : Nat} (hreg : e.1 = .socket socket reg) (hmba : msrMbaMaskStart ≤ reg) :
    ∃ c, p.capGetType CapItem.mba? = .ok c ∧ e.2 = BitVec.ofNat 64 (delay c cfg.mbaRate) := by
  rcases mem_classRegs.1 he with ⟨c, hc, hlt, he⟩ | ⟨c, hc, hlt, rfl⟩ | ⟨c, hc, hlt, rfl⟩
  · obtain ⟨reg', hreg', hlt', -⟩ := l3Regs_bank hfit hc hlt he
    rw [hreg] at hreg'
    rw [(Loc.socket.inj hreg').2] at hmba
    omega
  · cases hreg
  · exact ⟨c, hc, rfl⟩

/-- The two ways of turning rates into delays differ in values only. -/
theorem classRegs_keys (he : e ∈ classRegs p delay cfg classId ci) :
    ∃ e' ∈ classRegs p delay' cfg classId ci, e'.1 = e.1 := by
  rcases mem_classRegs.1 he with h | h | ⟨c, hc, hlt, rfl⟩
  · exact ⟨e, mem_classRegs.2 (Or.inl h), rfl⟩
  · exact ⟨e, mem_classRegs.2 (Or.inr (Or.inl h)), rfl⟩
  · exact ⟨_, mem_classRegs.2 (Or.inr (Or.inr ⟨c, hc, hlt, rfl⟩)), rfl⟩

theorem classRegs_of_delay_eq (h : ∀ c, p.capGetType CapItem.mba? = .ok c → classId < c.numClasses →
      delay c cfg.mbaRate = delay' c cfg.mbaRate) (he : e ∈ classRegs p delay cfg classId ci) :
    e ∈ classRegs p delay' cfg classId ci := by
  rcases mem_classRegs.1 he with h3 | h2 | ⟨c, hc, hlt, rfl⟩
  · exact mem_classRegs.2 (Or.inl h3)
  · exact mem_classRegs.2 (Or.inr (Or.inl h2))
  · exact mem_classRegs.2 (Or.inr (Or.inr ⟨c, hc, hlt, by rw [h c hc hlt]⟩))

end Regs

/-! ## Delays -/

section Delay

variable {c : CapMba} {rate rate' : Nat}

theorem mbaRate_le (cfg : RdtConfig) : cfg.mbaRate ≤ 100 := by
  unfold RdtConfig.mbaRate
  split_ifs with h
  · simp only [Mba.isValid, Bool.and_eq_true, decide_eq_true_eq] at h
    exact h.2
  · exact le_rfl

theorem mbaDelay_eq_asked (h : mbaRound c.throttleStep rate ≤ 100 ∨ c.throttleMax = 0) :
    mbaDelay c rate = mbaAsked c rate := by
  unfold mbaDelay mbaAsked
  rcases h with h | h
  · rw [show (100 + 2 ^ 32 - mbaRound c.throttleStep rate) % 2 ^ 32
      = 100 - mbaRound c.throttleStep rate by omega]
  · rw [h, Nat.min_zero, Nat.min_zero]

theorem mbaAsked_of_gt (h : 100 < mbaRound c.throttleStep rate) : mbaAsked c rate = 0 := by
  unfold mbaAsked
  omega

/-- Only a rate that rounds to 100 exactly is written as no delay at all. -/
theorem mbaRound_of_delay_zero (hmax : c.throttleMax ≠ 0) (h : mbaDelay c rate = 0) :
    mbaRound c.throttleStep rate = 100 := by
  have hlt : mbaRound c.throttleStep rate < 2 ^ 32 := Nat.mod_lt _ (by decide)
  unfold mbaDelay at h
  omega

/-- A step that reaches 100 does not pass it. -/
theorem mbaRound_le_of_eq {step : Nat} (h : mbaRound step rate = 100) (hrate : rate ≤ 100)
    (hrate' : rate' ≤ 100) : mbaRound step rate' ≤ 100 := by
  have hpos : step ≠ 0 := by
    rintro rfl
    simp [mbaRound] at h
  rcases Nat.lt_or_ge 200 step with hbig | hsmall
  · -- such a step is never reached: the sum is below it, or wraps below it
    have hlt : (rate + step / 2) % 2 ^ 32 < step := by
      have := Nat.mod_le (rate + step / 2) (2 ^ 32)
      omega
    rw [mbaRound, Nat.div_eq_of_lt hlt, Nat.zero_mul, Nat.zero_mod] at h
    cases h
  · have hplain : ∀ r ≤ 100, mbaRound step r = (r + step / 2) / step * step := by
      intro r hr
      have hle : (r + step / 2) / step * step ≤ r + step / 2 := Nat.div_mul_le_self _ _
      unfold mbaRound
      rw [Nat.mod_eq_of_lt (by omega : r + step / 2 < 2 ^ 32), Nat.mod_eq_of_lt (by omega)]
    rw [hplain rate hrate] at h
    rw [hplain rate' hrate']
    have hle : (rate' + step / 2) / step ≤ (rate + step / 2) / step := by
      have hmax : (rate' + step / 2) / step ≤ (100 + step / 2) / step :=
        Nat.div_le_div_right (by omega)
      have hstep : (100 + step / 2) / step = (rate + step / 2) / step := by
        conv_lhs => rw [← h, Nat.add_comm, Nat.add_mul_div_right _ _ (by omega),
          Nat.div_eq_of_lt (by omega : step / 2 < step), Nat.zero_add]
      omega
    calc (rate' + step / 2) / step * step ≤ (rate + step / 2) / step * step :=
          Nat.mul_le_mul_right step hle
      _ = 100 := h

end Delay

/-! ## Who is served -/

/-- The CPU's class is one of every requested technology, and where the CPU sits its registers hold
what the configuration asks, the default where it requests nothing. -/
structure Served (p : Platform) (cfg : RdtConfig) (ci : CoreInfo) (s : Msr) : Prop where
  below : BelowCounts p cfg.technology (s.cos ci.lcore)
  regs : ∀ e ∈ classRegs p mbaAsked cfg (s.cos ci.lcore) ci, s.mem e.1 = e.2

/-- Nothing goes wrong in a plan: every CPU's id is tried, what two grants ask of one register is
the same, a register that a member's class has where the member sits is written, and no rate rounds
beyond 100. A CPU or a register that is missed may have been as asked from the start. -/
structure WellPlanned (p : Platform) (config : List RdtConfig) (s : Msr) (gs : List Grant) :
    Prop where
  tried : ∀ cfg ∈ config, ∀ ci ∈ p.cpu.cores, cfg.cpumask.getLsbD ci.lcore = true →
    scopeId cfg.technology ci < getMaxResId p cfg.technology ∨ Served p cfg ci s
  agree : ∀ a ∈ gs, ∀ ci ∈ a.members, ∀ b ∈ gs, ∀ e ∈ a.asked p ci, ∀ e' ∈ b.asked p b.first,
    e'.1 = e.1 → e'.2 = e.2
  reached : ∀ a ∈ gs, ∀ ci ∈ a.members, ∀ e ∈ a.asked p ci,
    (∃ b ∈ gs, ∃ e' ∈ b.asked p b.first, e'.1 = e.1) ∨ s.mem e.1 = e.2
  rates : ∀ a ∈ gs, ∀ c, p.capGetType CapItem.mba? = .ok c → a.classId < c.numClasses →
    mbaRound c.throttleStep a.cfg.mbaRate ≤ 100 ∨ c.throttleMax = 0

section Serve

variable {config : List RdtConfig} {s t : Msr} {gs : List Grant}

/-- Every member finds its class's registers as asked. -/
def MembersServed (p : Platform) (gs : List Grant) (t : Msr) : Prop :=
  ∀ a ∈ gs, ∀ ci ∈ a.members, ∀ e ∈ a.asked p ci, t.mem e.1 = e.2

section Members

variable (hfit : p.FitsBanks)
  (hregs : ∀ l, (∀ k reg, l ≠ .core k reg) →
    t.mem l = stored s.mem (gs.flatMap (Grant.written p)) l)
include hfit hregs

omit hfit in
theorem exists_written {e : Loc × Word} (h : ∃ b ∈ gs, ∃ e' ∈ b.asked p b.first, e'.1 = e.1) :
    ∃ b ∈ gs, (e.1, t.mem e.1) ∈ b.written p := by
  obtain ⟨b, hb, e', he', hkey⟩ := h
  obtain ⟨w, hw, hwkey⟩ : ∃ w ∈ b.written p, w.1 = e'.1 := classRegs_keys he'
  have hmem : (e.1, stored s.mem (gs.flatMap (Grant.written p)) e.1)
      ∈ gs.flatMap (Grant.written p) :=
    stored_mem ⟨w, List.mem_flatMap.2 ⟨b, hb, hw⟩, hwkey.trans hkey⟩
  rw [← hregs e.1 fun k reg => hkey ▸ classRegs_ne_core he' k reg] at hmem
  exact List.mem_flatMap.1 hmem

omit hfit in
theorem mem_of_not_written {e : Loc × Word} (hcore : ∀ k reg, e.1 ≠ .core k reg)
    (h : ¬ ∃ b ∈ gs, ∃ e' ∈ b.asked p b.first, e'.1 = e.1) : t.mem e.1 = s.mem e.1 := by
  rw [hregs e.1 hcore]
  refine stored_of_forall_ne fun w hw hkey => h ?_
  obtain ⟨b, hb, hw⟩ := List.mem_flatMap.1 hw
  obtain ⟨e', he', hkey'⟩ : ∃ e' ∈ b.asked p b.first, e'.1 = w.1 := classRegs_keys hw
  exact ⟨b, hb, e', he', hkey'.trans hkey⟩

/-- A rate that rounds beyond 100 is written as the longest delay, and not even another grant that
writes the register can set it right. -/
theorem rates_of_served (h : MembersServed p gs t) {a : Grant} (ha : a ∈ gs) {c : CapMba}
    (hc : p.capGetType CapItem.mba? = .ok c) (hlt : a.classId < c.numClasses) :
    mbaRound c.throttleStep a.cfg.mbaRate ≤ 100 ∨ c.throttleMax = 0 := by
  by_contra hbad
  push Not at hbad
  obtain ⟨hgt, hmax⟩ := hbad
  have hasked : (Loc.socket a.first.socket (mbaReg a.classId), 0#64) ∈ a.asked p a.first := by
    refine mem_classRegs.2 (Or.inr (Or.inr ⟨c, hc, hlt, ?_⟩))
    rw [mbaAsked_of_gt hgt]
  have hzero := h a ha a.first List.mem_cons_self _ hasked
  obtain ⟨b, -, hb⟩ := exists_written hregs ⟨a, ha, _, hasked, rfl⟩
  rw [hzero] at hb
  have hge : msrMbaMaskStart ≤ mbaReg a.classId := by
    have hcount := hfit.mba c hc
    simp only [mbaReg, msrMbaMaskStart]
    omega
  obtain ⟨c', hc', hdelay⟩ := mba_of_mem hfit hb rfl hge
  obtain rfl : c' = c := Except.ok.inj (hc'.symm.trans hc)
  have hnone : mbaDelay c' b.cfg.mbaRate = 0 := by
    have hsmall : mbaDelay c' b.cfg.mbaRate < 2 ^ 64 := by
      have hmod : (100 + 2 ^ 32 - mbaRound c'.throttleStep b.cfg.mbaRate) % 2 ^ 32 < 2 ^ 32 :=
        Nat.mod_lt _ (by decide)
      unfold mbaDelay
      omega
    have := congrArg BitVec.toNat hdelay
    rw [BitVec.toNat_ofNat, BitVec.toNat_ofNat, Nat.mod_eq_of_lt hsmall] at this
    exact this.symm
  have := mbaRound_le_of_eq (mbaRound_of_delay_zero hmax hnone) (mbaRate_le b.cfg)
    (mbaRate_le a.cfg)
  omega

theorem membersServed_iff : MembersServed p gs t ↔
    (∀ a ∈ gs, ∀ ci ∈ a.members, ∀ b ∈ gs, ∀ e ∈ a.asked p ci, ∀ e' ∈ b.asked p b.first,
        e'.1 = e.1 → e'.2 = e.2)
      ∧ (∀ a ∈ gs, ∀ ci ∈ a.members, ∀ e ∈ a.asked p ci,
        (∃ b ∈ gs, ∃ e' ∈ b.asked p b.first, e'.1 = e.1) ∨ s.mem e.1 = e.2)
      ∧ ∀ a ∈ gs, ∀ c, p.capGetType CapItem.mba? = .ok c → a.classId < c.numClasses →
        mbaRound c.throttleStep a.cfg.mbaRate ≤ 100 ∨ c.throttleMax = 0 := by
  constructor
  · intro h
    refine ⟨fun a ha ci hci b hb e he e' he' hkey => ?_, fun a ha ci hci e he => ?_,
      fun a ha c hc hlt => rates_of_served hfit hregs h ha hc hlt⟩
    · rw [← h a ha ci hci e he, ← h b hb b.first List.mem_cons_self e' he', hkey]
    · by_cases hw : ∃ b ∈ gs, ∃ e' ∈ b.asked p b.first, e'.1 = e.1
      · exact Or.inl hw
      · rw [← mem_of_not_written hregs (classRegs_ne_core he) hw]
        exact Or.inr (h a ha ci hci e he)
  · rintro ⟨hagree, hreached, hrates⟩ a ha ci hci e he
    by_cases hw : ∃ b ∈ gs, ∃ e' ∈ b.asked p b.first, e'.1 = e.1
    · obtain ⟨b, hb, hmem⟩ := exists_written hregs hw
      have hasked : (e.1, t.mem e.1) ∈ b.asked p b.first :=
        classRegs_of_delay_eq (fun c hc hlt => mbaDelay_eq_asked (hrates b hb c hc hlt)) hmem
      exact hagree a ha ci hci b hb e he _ hasked rfl
    · rw [mem_of_not_written hregs (classRegs_ne_core he) hw]
      exact (hreached a ha ci hci e he).resolve_left hw

end Members

section Granted

variable (hfit : p.FitsBanks) (hgs : Granted p (idSteps p config) s t gs)
  (hover : config.Pairwise fun c d => c.cpumask &&& d.cpumask = 0)
include hgs hover

theorem Granted.cos_of_mem {a : Grant} (ha : a ∈ gs) {ci : CoreInfo} (hci : ci ∈ a.members) :
    t.cos ci.lcore = a.classId := by
  rw [hgs.cos]
  exact foldl_give_of_mem (List.mem_map_of_mem hci) (grants_apart hover hgs.planned) ha

/-- A CPU whose id is not tried is in no grant. -/
theorem Granted.cos_of_untried {cfg : RdtConfig} (hcfg : cfg ∈ config) {ci : CoreInfo}
    (hci : ci ∈ p.cpu.cores) (hnamed : cfg.cpumask.getLsbD ci.lcore = true)
    (hid : ¬ scopeId cfg.technology ci < getMaxResId p cfg.technology) :
    t.cos ci.lcore = s.cos ci.lcore := by
  rw [hgs.cos]
  refine foldl_give_of_notMem fun a ha hmem => hid ?_
  obtain ⟨ci', hci', hl⟩ := List.mem_map.1 hmem
  obtain ⟨hacfg, id, hlt, hres⟩ := grant_members hgs.planned ha
  rw [hres] at hci'
  obtain ⟨hci'mem, rfl, hnamed'⟩ := mem_resInfos.1 hci'
  obtain rfl : ci' = ci := List.inj_on_of_nodup_map p.cpu.nodup hci'mem hci hl
  obtain rfl : a.cfg = cfg := named_unique hover hacfg hcfg hnamed' hnamed
  exact hlt

include hfit

/-- Such a CPU finds class 0 as it was, since no grant is of class 0. -/
theorem Granted.served_of_untried {cfg : RdtConfig} (hcfg : cfg ∈ config) {ci : CoreInfo}
    (hci : ci ∈ p.cpu.cores) (hnamed : cfg.cpumask.getLsbD ci.lcore = true)
    (hid : ¬ scopeId cfg.technology ci < getMaxResId p cfg.technology)
    (hzero : s.cos ci.lcore = 0) : Served p cfg ci t ↔ Served p cfg ci s := by
  have hcos := hgs.cos_of_untried hover hcfg hci hnamed hid
  have hkeep : ∀ e ∈ classRegs p mbaAsked cfg (s.cos ci.lcore) ci, t.mem e.1 = s.mem e.1 := by
    intro e he
    refine mem_of_not_written hgs.regs (classRegs_ne_core he) ?_
    rintro ⟨b, hb, e', he', hkey⟩
    have hclass := regClass_of_mem hfit he'
    rw [hkey, regClass_of_mem hfit he, hzero] at hclass
    exact (hgs.below b hb).2 hclass.symm
  constructor
  · intro h
    refine ⟨hcos ▸ h.below, fun e he => ?_⟩
    rw [← hkeep e he]
    exact h.regs e (hcos.symm ▸ he)
  · intro h
    refine ⟨hcos.symm ▸ h.below, fun e he => ?_⟩
    rw [hcos] at he
    rw [hkeep e he]
    exact h.regs e he

omit hfit in
theorem Granted.served_of_member {a : Grant} (ha : a ∈ gs) {ci : CoreInfo} (hci : ci ∈ a.members) :
    Served p a.cfg ci t ↔ ∀ e ∈ a.asked p ci, t.mem e.1 = e.2 := by
  have hcos := hgs.cos_of_mem hover ha hci
  constructor
  · intro h e he
    exact h.regs e (by rwa [hcos])
  · intro h
    refine ⟨hcos.symm ▸ (hgs.below a ha).1, fun e he => h e ?_⟩
    rwa [hcos] at he

theorem Granted.served_iff (hzero : ∀ cfg ∈ config, ∀ lcore,
      cfg.cpumask.getLsbD lcore = true → s.cos lcore = 0) :
    (∀ cfg ∈ config, ∀ ci ∈ p.cpu.cores, cfg.cpumask.getLsbD ci.lcore = true → Served p cfg ci t)
      ↔ WellPlanned p config s gs := by
  have hmembers := membersServed_iff hfit hgs.regs
  constructor
  · intro h
    have hserved : MembersServed p gs t := by
      intro a ha ci hci
      obtain ⟨hacfg, id, -, hres⟩ := grant_members hgs.planned ha
      obtain ⟨hmem, -, hnamed⟩ := mem_resInfos.1 (hres ▸ hci)
      exact (hgs.served_of_member hover ha hci).1 (h a.cfg hacfg ci hmem hnamed)
    obtain ⟨hagree, hreached, hrates⟩ := hmembers.1 hserved
    refine ⟨fun cfg hcfg ci hci hnamed => ?_, hagree, hreached, hrates⟩
    by_cases hid : scopeId cfg.technology ci < getMaxResId p cfg.technology
    · exact Or.inl hid
    · exact Or.inr ((hgs.served_of_untried hfit hover hcfg hci hnamed hid
        (hzero cfg hcfg _ hnamed)).1 (h cfg hcfg ci hci hnamed))
  · rintro ⟨htried, hagree, hreached, hrates⟩ cfg hcfg ci hci hnamed
    have hserved := hmembers.2 ⟨hagree, hreached, hrates⟩
    by_cases hid : scopeId cfg.technology ci < getMaxResId p cfg.technology
    · obtain ⟨a, ha, rfl, hmem⟩ := exists_grant hgs.planned hcfg hci hnamed hid
      exact (hgs.served_of_member hover ha hmem).2 (hserved a ha ci hmem)
    · exact (hgs.served_of_untried hfit hover hcfg hci hnamed hid (hzero cfg hcfg _ hnamed)).2
        ((htried cfg hcfg ci hci hnamed).resolve_left hid)

end Granted

end Serve

/-! ## The whole run -/

section Run

variable {g : Rdtset} {s : Msr} {t : RdtState Msr}

theorem allocValidate_mem {config : List RdtConfig} :
    Keeps (LibStep fun s t : Msr => t.mem = s.mem) (allocValidate p (hwBackend p) config) := by
  have hmem : Frame fun s t : Msr => t.mem = s.mem := Frame.eq Msr.mem
  have hframe := LibStep.isFrame hmem
  have hread : ∀ lcore, Keeps (fun s t : Msr => t.mem = s.mem) (cosAssocGet p lcore) := by
    intro lcore
    refine Keeps.bind hmem (fun s => ?_) fun _ => Keeps.pure hmem _
    rcases h : (msrRead p lcore msrAssoc).run s with ⟨v, t⟩ | ⟨e, t⟩
    · rw [final_ok, (msrRead_ok h).2, Msr.log_mem]
    · exact msrRead_error h
  have hget : ∀ lcore, Keeps (fun s t : Msr => t.mem = s.mem)
      (pqosAllocAssocGet (hwBackend p) lcore) := fun lcore =>
    Keeps.bind hmem (Keeps.failIf hmem _ _) fun _ =>
      Keeps.bind hmem (Keeps.failIf hmem _ _) fun _ =>
        Keeps.bind hmem (Keeps.failIf hmem _ _) fun _ => hread lcore
  refine Keeps.bind hframe (Keeps.forM hframe fun cfg _ => Keeps.forM hframe fun cpu _ => ?_)
    fun _ => ?_
  · exact Keeps.bind hframe (Keeps.failIf hframe _ _) fun _ =>
      Keeps.bind hframe (libCall_keeps (hget cpu) _) fun _ => Keeps.failIf hframe _ _
  · exact Keeps.bind hframe (Keeps.ofExcept hframe _) fun _ =>
      Keeps.bind hframe (Keeps.ofExcept hframe _) fun _ =>
        Keeps.bind hframe (Keeps.ofExcept hframe _) fun _ => Keeps.ofExcept hframe _

theorem allocValidate_overlapping {σ : Type} {b : Backend σ} {config : List RdtConfig}
    {u v : RdtState σ} (h : (allocValidate p b config).run u = .ok () v) :
    config.Pairwise fun c d => c.cpumask &&& d.cpumask = 0 := by
  unfold allocValidate at h
  simp only [bind_ok, ofExcept_ok] at h
  obtain ⟨_, _, -, _, _, -, _, _, -, _, _, -, hover, -⟩ := h
  exact checkCpusOverlapping_iff.1 hover

/-- A run that succeeds serves every CPU as its configuration asks exactly if its plan goes well. -/
theorem allocConfigure_served (hfit : p.FitsBanks) (hcores : ∀ cfg ∈ g.config, cfg.pidCfg = false)
    (hrun : (allocConfigure p (hwBackend p) g).run ⟨s, true⟩ = .ok () t) :
    (∀ cfg ∈ g.config, ∀ lcore, cfg.cpumask.getLsbD lcore = true →
        ∃ ci ∈ p.cpu.cores, ci.lcore = lcore ∧ Served p cfg ci t.lib)
      ↔ ∃ gs, plan p s.cos (idSteps p g.config) = some gs ∧ WellPlanned p g.config s gs := by
  unfold allocConfigure at hrun
  rw [bind_ok] at hrun
  obtain ⟨_, v, hvalid, hconfigure⟩ := hrun
  obtain ⟨hsame, hnamed⟩ := allocValidate_ok (hwBackend_associates hfit) hvalid
  have hover := allocValidate_overlapping hvalid
  obtain ⟨gs, hgs⟩ := steps_granted hfit
    (forM_forM_ok (forM_cfgSet_ids hcores (configureFrom_ok hconfigure)))
  -- validation has only read registers
  have hmem : v.lib.mem = s.mem := (allocValidate_mem.of_ok hvalid).1
  have hcos : v.lib.cos = s.cos := hsame.1.1
  have hgs' : Granted p (idSteps p g.config) s t.lib gs := by
    refine ⟨hcos ▸ hgs.planned, hgs.below, hcos ▸ hgs.cos, fun l hl => ?_⟩
    rw [hgs.regs l hl, hmem]
  have hiff := hgs'.served_iff hfit hover fun cfg hcfg lcore hl => (hnamed cfg hcfg lcore hl).2
  constructor
  · intro h
    refine ⟨gs, hgs'.planned, hiff.1 fun cfg hcfg ci hci hl => ?_⟩
    obtain ⟨ci', hci', heq, hserved⟩ := h cfg hcfg _ hl
    rwa [List.inj_on_of_nodup_map p.cpu.nodup hci' hci heq] at hserved
  · rintro ⟨gs', hplan, hwell⟩ cfg hcfg lcore hl
    rw [hgs'.planned] at hplan
    cases hplan
    obtain ⟨ci, hci, rfl⟩ := List.mem_map.1 (hnamed cfg hcfg lcore hl).1
    exact ⟨ci, hci, rfl, hiff.2 hwell cfg hcfg ci hci hl⟩

end Run

theorem cores_of_all {g : Rdtset} (h : g.config.all (fun cfg => !cfg.pidCfg) = true) :
    ∀ cfg ∈ g.config, cfg.pidCfg = false := by
  simpa using h

def fourClasses : Platform := smallPlatform [⟨true, .l3ca ⟨4, 11, 0, false, false⟩⟩]

theorem fourClasses_fitsBanks : fourClasses.FitsBanks := by
  refine ⟨fun c h => ?_, fun c h => ?_, fun c h => ?_⟩ <;> cases h
  decide

/-- Two cores of one socket get classes 3 and 2, each with its own mask. -/
theorem allocConfigure_served_small : ∃ t,
    (allocConfigure fourClasses (hwBackend fourClasses) (twoConfigs 1 2)).run ⟨zeroMsr, true⟩
        = .ok () t
      ∧ ∀ cfg ∈ (twoConfigs 1 2).config, ∀ lcore, cfg.cpumask.getLsbD lcore = true →
        ∃ ci ∈ fourClasses.cpu.cores, ci.lcore = lcore ∧ Served fourClasses cfg ci t.lib := by
  obtain ⟨t, hrun⟩ := value_eq_some.1 (show value ((allocConfigure fourClasses
    (hwBackend fourClasses) (twoConfigs 1 2)).run ⟨zeroMsr, true⟩) = some () by decide +kernel)
  refine ⟨t, hrun, (allocConfigure_served fourClasses_fitsBanks
    (cores_of_all (by decide +kernel)) hrun).2
    ⟨[⟨⟨1, ⟨0, .ways 0xf⟩, ⟨0, 0⟩, ⟨0, 0⟩, by decide⟩, ⟨0, 0, 0, 0⟩, [], 3⟩,
      ⟨⟨2, ⟨0, .ways 0xf0⟩, ⟨0, 0⟩, ⟨0, 0⟩, by decide⟩, ⟨1, 0, 0, 1⟩, [], 2⟩],
    by decide +kernel, ?_⟩⟩
  refine ⟨fun cfg hcfg ci hci _ => Or.inl ?_, by decide +kernel, by decide +kernel, ?_⟩
  · revert ci cfg
    decide +kernel
  · intro a _ c hc
    cases hc

/-- L2 and L3 for CPU 0, and L2 for CPU 1 in the other cluster. -/
def sharedSocket : Rdtset where
  config := [⟨1, ⟨0, .ways 0xf⟩, ⟨0, 1⟩, ⟨0, 0⟩, by decide⟩,
    ⟨2, ⟨0, .ways 0⟩, ⟨0, 1⟩, ⟨0, 0⟩, by decide⟩]
  pids := []
  pid := 7

/-- Both CPUs get class 3, and the second definition gives it all L3 ways again. -/
theorem allocConfigure_unserved : clashPlatform.Reliable
    ∧ ¬ ∀ (g : Rdtset) (s : Msr) (t : RdtState Msr), (∀ cfg ∈ g.config, cfg.pidCfg = false) →
      (allocConfigure clashPlatform (hwBackend clashPlatform) g).run ⟨s, true⟩ = .ok () t →
      ∀ cfg ∈ g.config, ∀ lcore, cfg.cpumask.getLsbD lcore = true →
        ∃ ci ∈ clashPlatform.cpu.cores, ci.lcore = lcore ∧ Served clashPlatform cfg ci t.lib := by
  refine ⟨smallPlatform_reliable _, fun hall => ?_⟩
  obtain ⟨t, hrun⟩ := value_eq_some.1 (show value ((allocConfigure clashPlatform
    (hwBackend clashPlatform) sharedSocket).run ⟨zeroMsr, true⟩) = some () by decide +kernel)
  obtain ⟨ci, hci, hlcore, -, hregs⟩ := hall sharedSocket zeroMsr t
    (cores_of_all (by decide +kernel)) hrun _ List.mem_cons_self 0 (by decide +kernel)
  obtain rfl : ci = ⟨0, 0, 0, 0⟩ :=
    List.inj_on_of_nodup_map clashPlatform.cpu.nodup hci (by decide) hlcore
  have hclass : (final ((allocConfigure clashPlatform (hwBackend clashPlatform) sharedSocket).run
      ⟨zeroMsr, true⟩)).lib.cos 0 = 3 := by decide +kernel
  have hways : (final ((allocConfigure clashPlatform (hwBackend clashPlatform) sharedSocket).run
      ⟨zeroMsr, true⟩)).lib.mem (.socket 0 (msrL3caMaskStart + 3)) = 0x7ff := by decide +kernel
  rw [hrun, final_ok] at hclass hways
  have hasked := hregs (.socket 0 (msrL3caMaskStart + 3), 0xf)
  rw [hclass] at hasked
  have hmask := hasked (by decide +kernel)
  rw [hways] at hmask
  revert hmask
  decide

end Pqos
