import Pqos.Lib.Lease
import Pqos.MonApi
import Pqos.Proofs.Assoc

/-!
# Who carries which RMID

Every call of the monitoring interface is a step of the lease system: a start that succeeds grants
its cores one RMID per L3 cluster, a stop releases them, and a call that fails changes no RMID.
-/

namespace Pqos

open Prog

/-! ## The low half of the association register -/

/-- The RMID that is set is reduced to ten bits. -/
theorem rmidOf_withRmid (v : Word) (r : Nat) : rmidOf (withRmid v r) = r % 1024 := by
  have hmask : ∀ r : Nat, r &&& 0x3ff = r % 1024 := Nat.and_two_pow_sub_one_eq_mod (n := 10)
  have hhigh : (v &&& 0xffffffff00000000#64).toNat &&& 0x3ff = 0 := by
    rw [BitVec.toNat_and, Nat.and_assoc]
    exact Nat.and_zero _
  unfold rmidOf withRmid
  rw [hmask, BitVec.toNat_and, BitVec.toNat_or, BitVec.toNat_ofNat,
    Nat.mod_eq_of_lt (by omega : r % 1024 < 2 ^ 64), Nat.and_or_distrib_right]
  change _ &&& 0x3ff ||| r % 1024 &&& 0x3ff = r % 1024
  rw [hhigh, Nat.zero_or, hmask, Nat.mod_mod]

/-- The RMID a core carries. -/
def Msr.rmid (s : Msr) (lcore : Nat) : Nat := rmidOf (s.assoc lcore)

theorem Msr.rmid_of_mem {s t : Msr} (h : t.mem = s.mem) (lcore : Nat) :
    t.rmid lcore = s.rmid lcore := by
  rw [rmid, rmid, assoc, assoc, h]

/-- From `s` to `t` no core outside `l` changed its RMID. -/
def RmidsKept (l : List Nat) (s t : Msr) : Prop := ∀ k ∉ l, t.rmid k = s.rmid k

theorem RmidsKept.isFrame (l : List Nat) : Frame (RmidsKept l) :=
  Frame.all fun _ => Frame.all fun _ => Frame.eq _

theorem RmidsKept.of_mem {l : List Nat} {s t : Msr} (h : t.mem = s.mem) : RmidsKept l s t :=
  fun k _ => Msr.rmid_of_mem h k

section Registers

variable {p : Platform} {lcore reg r c : Nat} {v val : Word} {s t : Msr} {e : Err} {u : Unit}
  {l : List Nat}

theorem CpuInfo.loc_ne_assoc {cpu : CpuInfo} (h : reg ≠ msrAssoc) (k : Nat) :
    Loc.core k msrAssoc ≠ cpu.loc lcore reg := by
  unfold CpuInfo.loc
  split
  · rintro ⟨⟩
    exact h rfl
  · split_ifs
    all_goals rintro ⟨⟩
    exact h rfl

theorem msrRead_keepsMem : Keeps (fun s t => t.mem = s.mem) (msrRead p lcore reg) := by
  intro s
  rcases h : (msrRead p lcore reg).run s with ⟨v, t⟩ | ⟨e, t⟩
  · rw [final_ok, (msrRead_ok h).2, Msr.log_mem]
  · exact msrRead_error h

theorem msrWrite_keepsRmids (h : reg ≠ msrAssoc) :
    Keeps (RmidsKept l) (msrWrite p lcore reg val) := by
  intro s
  rcases hw : (msrWrite p lcore reg val).run s with ⟨_, t⟩ | ⟨e, t⟩
  · intro k _
    rw [final_ok, msrWrite_ok hw, Msr.rmid, Msr.assoc, Msr.write_mem,
      Function.update_of_ne (CpuInfo.loc_ne_assoc h k)]
    rfl
  · exact RmidsKept.of_mem (msrWrite_error hw)

theorem monAssocGet_keepsMem : Keeps (fun s t => t.mem = s.mem) (monAssocGet p lcore) :=
  Keeps.bind (Frame.eq Msr.mem) msrRead_keepsMem fun _ => Keeps.pure (Frame.eq Msr.mem) _

theorem monAssocGet_ok (h : (monAssocGet p lcore).run s = .ok c t) :
    c = s.rmid lcore ∧ t.mem = s.mem := by
  unfold monAssocGet at h
  obtain ⟨v, s', hr, hv⟩ := bind_ok.1 h
  obtain ⟨rfl, rfl⟩ := msrRead_ok hr
  cases hv
  exact ⟨by rw [Msr.read_assoc, Msr.rmid], rfl⟩

theorem monAssocSet_ok (h : (monAssocSet p lcore r).run s = .ok u t) :
    t.mem = Function.update s.mem (.core lcore msrAssoc) (withRmid (s.assoc lcore) r) := by
  unfold monAssocSet at h
  obtain ⟨v, s', hr, hw⟩ := bind_ok.1 h
  obtain ⟨rfl, rfl⟩ := msrRead_ok hr
  rw [msrWrite_ok hw, CpuInfo.loc_assoc, Msr.read_assoc]
  rfl

theorem monAssocSet_total (hp : p.Reliable) (hl : lcore ∈ p.cpu.lcores) :
    Total (monAssocSet p lcore r) :=
  Total.bind (fun _ => ⟨_, _, msrRead_run hp hl⟩) fun _ _ => ⟨_, _, msrWrite_run hp hl⟩

theorem monAssocSet_rmid_mod (h : (monAssocSet p lcore r).run s = .ok u t) (k : Nat) :
    t.rmid k = if k = lcore then r % 1024 else s.rmid k := by
  unfold Msr.rmid Msr.assoc
  rw [monAssocSet_ok h]
  split_ifs with hk
  · rw [hk, Function.update_self, rmidOf_withRmid]
  · rw [Function.update_of_ne (by simpa using hk)]

theorem monAssocSet_rmid (hr : r < 1024) (h : (monAssocSet p lcore r).run s = .ok u t) (k : Nat) :
    t.rmid k = if k = lcore then r else s.rmid k := by
  rw [monAssocSet_rmid_mod h, Nat.mod_eq_of_lt hr]

theorem monAssocSet_keepsRmids (hl : lcore ∈ l) : Keeps (RmidsKept l) (monAssocSet p lcore r) := by
  refine Keeps.bind (RmidsKept.isFrame l) (msrRead_keepsMem.mono RmidsKept.of_mem) fun v s => ?_
  rcases hw : (msrWrite p lcore msrAssoc (withRmid v r)).run s with ⟨_, t⟩ | ⟨e, t⟩
  · intro k hk
    have hne : Loc.core k msrAssoc ≠ .core lcore msrAssoc := by
      rintro ⟨⟩
      exact hk hl
    rw [final_ok, msrWrite_ok hw, CpuInfo.loc_assoc, Msr.rmid, Msr.assoc, Msr.write_mem,
      Function.update_of_ne hne]
    rfl
  · exact RmidsKept.of_mem (msrWrite_error hw)

/-- Moving every core of a list back to RMID 0 does just that where it succeeds. -/
theorem monAssocSet_cleared (h : (tryAll e (fun core => monAssocSet p core 0) l).run s = .ok u t) :
    (∀ k ∈ l, t.rmid k = 0) ∧ RmidsKept l s t := by
  have ht := tryAll_ok.1 h
  refine ⟨?_, ?_⟩
  · refine forM_ok (fun l t => ∀ k ∈ l, t.rmid k = 0) ht (by simp) fun pre a post t t' _ hI ha => ?_
    intro k hk
    rw [monAssocSet_rmid (by omega) ha]
    split_ifs with hka
    · rfl
    · exact hI k (by simpa [hka] using hk)
  · exact (Keeps.forM (RmidsKept.isFrame l) fun k hk => monAssocSet_keepsRmids hk).of_ok ht

/-- On a machine that fails no access it succeeds. -/
theorem monAssocSet_clears (hp : p.Reliable) (hl : ∀ k ∈ l, k ∈ p.cpu.lcores) (e : Err) (s : Msr) :
    ∃ t, (tryAll e (fun core => monAssocSet p core 0) l).run s = .ok () t
      ∧ (∀ k ∈ l, t.rmid k = 0) ∧ RmidsKept l s t := by
  obtain ⟨_, t, ht⟩ := Total.forM (fun k hk => monAssocSet_total (r := 0) hp (hl k hk)) s
  have hundo : (tryAll e (fun core => monAssocSet p core 0) l).run s = .ok () t := tryAll_ok.2 ht
  exact ⟨t, hundo, monAssocSet_cleared hundo⟩

end Registers

/-! ## Choosing RMIDs -/

theorem findFree_ok {used : List Nat} {r : Nat} :
    ∀ {n : Nat}, findFree used n = some r → r < n ∧ r ∉ used
  | n + 1, h => by
    unfold findFree at h
    split_ifs at h with hn
    · obtain ⟨hlt, hu⟩ := findFree_ok h
      exact ⟨by omega, hu⟩
    · cases h
      exact ⟨by omega, hn⟩

theorem eventsFound_le (mon : CapMon) (event : MonEvent) :
    (eventsFound mon event).2 ≤ mon.maxRmid := by
  unfold eventsFound
  refine List.foldlRecOn
    (motive := fun found : MonEvent × Nat => found.2 ≤ mon.maxRmid) mon.events _
    (Nat.le_refl _) fun found hle m _ => ?_
  dsimp only
  split_ifs <;> dsimp only <;> omega

section Start

variable {p : Platform} {event : MonEvent} {cluster r lcore : Nat} {s t : Msr} {e : Err} {u : Unit}
  {cores : List Nat} {ctxs : List PollCtx}

/-- Every monitoring capability keeps the RMIDs within the field that holds them. -/
def Platform.RmidsFit (p : Platform) : Prop :=
  ∀ mon, p.capGetType CapItem.mon? = .ok mon → mon.maxRmid ≤ 1024

/-- An RMID is the highest that no core of the cluster carries, below the number that there are for
the events. -/
theorem rmidAlloc_findFree (h : (rmidAlloc p cluster event).run s = .ok r t) :
    t.mem = s.mem ∧ ∃ mon, p.capGetType CapItem.mon? = .ok mon
      ∧ event = (eventsFound mon event).1 ∧ (eventsFound mon event).2 ≠ 0
      ∧ findFree ((p.cpu.getCoresL3id cluster).map s.rmid) (eventsFound mon event).2 = some r := by
  unfold rmidAlloc at h
  simp only [bind_ok, ofExcept_ok, ofOption_ok, failIf_ok] at h
  obtain ⟨mon, _, ⟨hmon, rfl⟩, _, _, ⟨hevents, rfl⟩, _, _, ⟨-, rfl⟩, used, s', hused, hfind, rfl⟩ :=
    h
  obtain ⟨rfl, hmem⟩ := mapM_ok_of_reads Msr.mem (fun m k => rmidOf (m (.core k msrAssoc)))
    (fun k s c t h => monAssocGet_ok h) hused
  rw [not_or, not_not] at hevents
  exact ⟨hmem, mon, hmon, hevents.1, hevents.2, hfind⟩

theorem rmidAlloc_ok (hfit : p.RmidsFit) (h : (rmidAlloc p cluster event).run s = .ok r t) :
    t.mem = s.mem ∧ r < 1024 ∧ ∀ k, p.cpu.getClusterid k = .ok cluster → s.rmid k ≠ r := by
  obtain ⟨hmem, mon, hmon, -, -, hfind⟩ := rmidAlloc_findFree h
  obtain ⟨hlt, hu⟩ := findFree_ok hfind
  have hle := eventsFound_le mon event
  have := hfit mon hmon
  refine ⟨hmem, by omega, fun k hk hkr => hu (List.mem_map.2 ⟨k, ?_, hkr⟩)⟩
  exact CpuInfo.mem_getCoresL3id.2 hk

theorem rmidAlloc_keepsMem : Keeps (fun s t => t.mem = s.mem) (rmidAlloc p cluster event) := by
  have hF : Frame fun s t : Msr => t.mem = s.mem := Frame.eq Msr.mem
  unfold rmidAlloc
  exact Keeps.bind hF (Keeps.ofExcept hF _) fun mon => Keeps.bind hF (Keeps.failIf hF _ _) fun _ =>
    Keeps.bind hF (Keeps.failIf hF _ _) fun _ => Keeps.bind hF
      (Keeps.mapM hF fun k _ => monAssocGet_keepsMem) fun _ => Keeps.ofOption hF _ _

/-- What the checks of a start establish: the cores are known and idle, each cluster they are in
has one context, and nobody in the cluster carries the context's RMID. -/
structure CtxsReady (p : Platform) (s : Msr) (cores : List Nat) (ctxs : List PollCtx) : Prop where
  idle : ∀ k ∈ cores, k ∈ p.cpu.lcores ∧ s.rmid k = 0
  found : ∀ k ∈ cores, ∃ cluster, p.cpu.getClusterid k = .ok cluster
    ∧ ∃ c ∈ ctxs, c.cluster = cluster
  nodup : (ctxs.map PollCtx.cluster).Nodup
  lcore : ∀ c ∈ ctxs, p.cpu.getClusterid c.lcore = .ok c.cluster
  free : ∀ c ∈ ctxs, c.rmid < 1024 ∧ ∀ k, p.cpu.getClusterid k = .ok c.cluster → s.rmid k ≠ c.rmid

theorem monCtxBy_keepsMem {alloc : Nat → MonEvent → EStateM Err Msr Nat}
    (halloc : ∀ cluster event, Keeps (fun s t => t.mem = s.mem) (alloc cluster event)) :
    Keeps (fun s t => t.mem = s.mem) (monCtxBy p alloc event ctxs lcore) := by
  have hF : Frame fun s t : Msr => t.mem = s.mem := Frame.eq Msr.mem
  unfold monCtxBy
  refine Keeps.bind hF (Keeps.failIf hF _ _) fun _ => Keeps.bind hF
    (Keeps.attempt monAssocGet_keepsMem) fun r => ?_
  rcases r with _ | r
  · exact Keeps.throw hF _
  · refine Keeps.bind hF (Keeps.failIf hF _ _) fun _ => ?_
    rcases p.cpu.getClusterid lcore with _ | cluster
    · exact Keeps.throw hF _
    · dsimp only
      split_ifs
      · exact Keeps.pure hF _
      · exact Keeps.bind hF (halloc _ _) fun _ => Keeps.pure hF _

theorem monCtx_keepsMem : Keeps (fun s t => t.mem = s.mem) (monCtx p event ctxs lcore) :=
  monCtxBy_keepsMem fun _ _ => rmidAlloc_keepsMem

/-- A core that passes is known and idle. -/
theorem monCtx_idle {ctxs' : List PollCtx} (h : (monCtx p event ctxs lcore).run s = .ok ctxs' t) :
    lcore ∈ p.cpu.lcores ∧ s.rmid lcore = 0 := by
  unfold monCtx at h
  simp only [bind_ok, failIf_ok, not_not, attempt_ok] at h
  obtain ⟨_, s, ⟨hcheck, rfl⟩, rmid, s', hrmid, h⟩ := h
  rcases hrmid with ⟨rmid, rfl, hget⟩ | ⟨_, rfl, -⟩
  swap
  · cases h
  obtain ⟨rfl, -⟩ := monAssocGet_ok hget
  dsimp only at h
  simp only [bind_ok, failIf_ok, not_not] at h
  obtain ⟨_, _, ⟨hzero, -⟩, -⟩ := h
  exact ⟨CpuInfo.checkCore_ok.1 hcheck, hzero⟩

/-- A core that passes leaves the contexts ready for it too. -/
theorem monCtx_ok (hfit : p.RmidsFit) (hready : CtxsReady p s cores ctxs) {ctxs' : List PollCtx}
    (h : (monCtx p event ctxs lcore).run s = .ok ctxs' t) :
    CtxsReady p s (cores ++ [lcore]) ctxs' := by
  have hlcore := monCtx_idle h
  unfold monCtx at h
  simp only [bind_ok, failIf_ok, not_not, attempt_ok] at h
  obtain ⟨_, s, ⟨-, rfl⟩, rmid, s', hrmid, h⟩ := h
  rcases hrmid with ⟨rmid, rfl, hget⟩ | ⟨_, rfl, -⟩
  swap
  · cases h
  obtain ⟨rfl, hmem⟩ := monAssocGet_ok hget
  dsimp only at h
  simp only [bind_ok, failIf_ok, not_not] at h
  obtain ⟨_, s', ⟨-, rfl⟩, h⟩ := h
  have hidle : ∀ k ∈ cores ++ [lcore], k ∈ p.cpu.lcores ∧ s.rmid k = 0 := by
    intro k hk
    rcases List.mem_append.1 hk with hk | hk
    · exact hready.idle k hk
    · obtain rfl := List.mem_singleton.1 hk
      exact hlcore
  rcases hcl : p.cpu.getClusterid lcore with _ | cluster <;> rw [hcl] at h <;> dsimp only at h
  · cases h
  split_ifs at h with hold
  · cases h
    refine ⟨hidle, fun k hk => ?_, hready.nodup, hready.lcore, hready.free⟩
    rcases List.mem_append.1 hk with hk | hk
    · exact hready.found k hk
    · obtain rfl := List.mem_singleton.1 hk
      obtain ⟨c, hc, hlc | hclc⟩ := hold
      · refine ⟨cluster, hcl, c, hc, ?_⟩
        have := hready.lcore c hc
        rw [hlc, hcl] at this
        exact (Except.ok.inj this).symm
      · exact ⟨cluster, hcl, c, hc, hclc⟩
  · obtain ⟨r, s'', halloc, h⟩ := bind_ok.1 h
    obtain ⟨-, hlt, hfree⟩ := rmidAlloc_ok hfit halloc
    cases h
    refine ⟨hidle, fun k hk => ?_, ?_, fun c hc => ?_, fun c hc => ?_⟩
    · rcases List.mem_append.1 hk with hk | hk
      · obtain ⟨cl, hkcl, c, hc, hce⟩ := hready.found k hk
        exact ⟨cl, hkcl, c, List.mem_append_left _ hc, hce⟩
      · obtain rfl := List.mem_singleton.1 hk
        exact ⟨cluster, hcl, _, List.mem_append_right _ (List.mem_singleton_self _), rfl⟩
    · rw [List.map_append, List.map_singleton, List.nodup_append]
      refine ⟨hready.nodup, List.nodup_singleton _, fun a ha b hb => ?_⟩
      obtain ⟨c, hc, rfl⟩ := List.mem_map.1 ha
      rw [List.mem_singleton.1 hb]
      exact fun he => hold ⟨c, hc, Or.inr he⟩
    · rcases List.mem_append.1 hc with hc | hc
      · exact hready.lcore c hc
      · obtain rfl := List.mem_singleton.1 hc
        exact hcl
    · rcases List.mem_append.1 hc with hc | hc
      · exact hready.free c hc
      · obtain rfl := List.mem_singleton.1 hc
        refine ⟨hlt, fun k hk => ?_⟩
        rw [← Msr.rmid_of_mem hmem]
        exact hfree k hk

theorem CtxsReady.of_mem (h : CtxsReady p s cores ctxs) (ht : t.mem = s.mem) :
    CtxsReady p t cores ctxs where
  idle k hk := by rw [Msr.rmid_of_mem ht]; exact h.idle k hk
  found := h.found
  nodup := h.nodup
  lcore := h.lcore
  free c hc := ⟨(h.free c hc).1, fun k hk => by rw [Msr.rmid_of_mem ht]; exact (h.free c hc).2 k hk⟩

theorem monCtxs_ok (hfit : p.RmidsFit) (h : (cores.foldlM (monCtx p event) []).run s = .ok ctxs t) :
    t.mem = s.mem ∧ CtxsReady p s cores ctxs := by
  have hnil : CtxsReady p s [] [] := by constructor <;> simp
  refine foldlM_ok (fun pre ctxs t => t.mem = s.mem ∧ CtxsReady p s pre ctxs) h ⟨rfl, hnil⟩ ?_
  rintro pre a post b c t t' - ⟨hmem, hready⟩ ha
  have hmem' : t'.mem = t.mem := monCtx_keepsMem.of_ok ha
  exact ⟨hmem'.trans hmem, (monCtx_ok hfit (hready.of_mem hmem) ha).of_mem hmem.symm⟩

/-- The context of a core's cluster is the only one the table has for it. -/
theorem CtxsReady.ctxOf (h : CtxsReady p s cores ctxs) {k : Nat} (hk : k ∈ cores) :
    ∃ cluster c, p.cpu.getClusterid k = .ok cluster ∧ ctxOf ctxs cluster = some c ∧ c ∈ ctxs
      ∧ c.cluster = cluster := by
  obtain ⟨cluster, hcl, c, hc, hce⟩ := h.found k hk
  obtain ⟨d, hd⟩ : ∃ d, Pqos.ctxOf ctxs cluster = some d := by
    rw [← Option.isSome_iff_exists, Pqos.ctxOf, List.find?_isSome]
    exact ⟨c, hc, by simpa using hce⟩
  exact ⟨cluster, d, hcl, hd, List.mem_of_find?_eq_some hd, by simpa using List.find?_some hd⟩

theorem ia32PerfCounterProgram_keepsRmids (l : List Nat) (core : Nat) :
    Keeps (RmidsKept l) (ia32PerfCounterProgram p event core) := by
  have hF := RmidsKept.isFrame l
  have hw : ∀ reg val, reg ≠ msrAssoc → Keeps (RmidsKept l) (msrWrite p core reg val) :=
    fun reg val hreg => msrWrite_keepsRmids hreg
  refine Keeps.bind hF (hw _ _ (by decide)) fun _ => Keeps.bind hF (Keeps.unless hF _ ?_) fun _ =>
    Keeps.bind hF (Keeps.unless hF _ ?_) fun _ => hw _ _ (by decide)
  · exact Keeps.bind hF (hw _ _ (by decide)) fun _ => Keeps.bind hF (hw _ _ (by decide)) fun _ =>
      hw _ _ (by decide)
  · exact Keeps.bind hF (hw _ _ (by decide)) fun _ => hw _ _ (by decide)

theorem ia32PerfCounterStart_keepsRmids (l : List Nat) :
    Keeps (RmidsKept l) (ia32PerfCounterStart p cores event) := by
  have hF := RmidsKept.isFrame l
  have hcheck (core : Nat) : Keeps (RmidsKept l) (ia32PerfCounterCheck p core) :=
    Keeps.bind hF (msrRead_keepsMem.mono RmidsKept.of_mem) fun _ => Keeps.pure hF _
  exact Keeps.unless hF _ (Keeps.bind hF (Keeps.forM hF fun core _ => hcheck core) fun _ =>
    Keeps.forM hF fun core _ => ia32PerfCounterProgram_keepsRmids l core)

theorem ia32PerfCounterStop_keepsRmids (l : List Nat) :
    Keeps (RmidsKept l) (ia32PerfCounterStop p cores event) := by
  have hF := RmidsKept.isFrame l
  have hw (core : Nat) : Keeps (RmidsKept l) (msrWrite p core msrPerfGlobalCtrl 0#64) :=
    msrWrite_keepsRmids (by decide)
  exact Keeps.unless hF _ (Keeps.tryAll hF fun core _ => hw core)

theorem monAssocCtx_keepsRmids (hl : lcore ∈ cores) :
    Keeps (RmidsKept cores) (monAssocCtx p ctxs lcore) := by
  have hF := RmidsKept.isFrame cores
  exact Keeps.bind hF (Keeps.ofExcept hF _) fun _ => Keeps.bind hF (Keeps.ofOption hF _ _) fun _ =>
    monAssocSet_keepsRmids hl

/-- The second half of a start changes the RMIDs of its own cores only, and if it succeeds each
carries the RMID of its cluster's context. -/
theorem monAssoc_ok {s₀ : Msr} (hready : CtxsReady p s₀ cores ctxs)
    (h : (cores.forM (monAssocCtx p ctxs)).run s = .ok u t) {k : Nat} (hk : k ∈ cores) :
    ∃ cluster c, p.cpu.getClusterid k = .ok cluster ∧ ctxOf ctxs cluster = some c
      ∧ t.rmid k = c.rmid := by
  refine forM_ok (fun pre t => ∀ k ∈ pre, ∃ cluster c, p.cpu.getClusterid k = .ok cluster
    ∧ ctxOf ctxs cluster = some c ∧ t.rmid k = c.rmid) h (by simp) ?_ k hk
  intro pre a post t t' hl hI ha k hk
  unfold monAssocCtx at ha
  simp only [bind_ok, ofExcept_ok, ofOption_ok] at ha
  obtain ⟨cluster, t, ⟨hcl, rfl⟩, c, t, ⟨hc, rfl⟩, hset⟩ := ha
  have hlt := (hready.free c (List.mem_of_find?_eq_some hc)).1
  rw [monAssocSet_rmid hlt hset]
  by_cases hka : k = a
  · exact ⟨cluster, c, hka ▸ hcl, hc, if_pos hka⟩
  · rw [if_neg hka]
    exact hI k (by simpa [hka] using hk)

/-! ## One start -/

variable {g : Nat} {σ σ' : MonState}

/-- The two halves of a successful start, seen from outside. -/
structure Started (p : Platform) (cores : List Nat) (ctxs : List PollCtx) (s t : Msr) : Prop where
  ready : CtxsReady p s cores ctxs
  moved : ∀ k ∈ cores, ∃ cluster c, p.cpu.getClusterid k = .ok cluster
    ∧ ctxOf ctxs cluster = some c ∧ t.rmid k = c.rmid
  kept : RmidsKept cores s t

theorem hwMonStart_ok (hfit : p.RmidsFit) (h : (hwMonStart p cores event g).run σ = .ok u σ') :
    ∃ ctxs, Started p cores ctxs σ.msr σ'.msr
      ∧ σ'.groups = Function.update σ.groups g ⟨0, event, ctxs, cores⟩ := by
  unfold hwMonStart onMsr at h
  simp only [bind_ok, failIf_ok, zoom_ok, attempt_ok] at h
  obtain ⟨_, σ, ⟨-, rfl⟩, ctxs, _, ⟨s₁, hctxs, rfl⟩, _, σ₂, hclear, r, _, ⟨s₂, hr, rfl⟩, h⟩ := h
  obtain ⟨hmem, hready⟩ := monCtxs_ok hfit hctxs
  cases hclear
  rcases hr with ⟨_, rfl, hr⟩ | ⟨e, rfl, -⟩
  · cases h
    obtain ⟨_, s₃, hperf, hassoc⟩ := hr
    have hchecks : RmidsKept cores σ.msr s₁ := RmidsKept.of_mem hmem
    have hperf' : RmidsKept cores s₁ s₃ := (ia32PerfCounterStart_keepsRmids cores).of_ok hperf
    have hassoc' : RmidsKept cores s₃ s₂ :=
      (Keeps.forM (RmidsKept.isFrame _) fun k hk => monAssocCtx_keepsRmids hk).of_ok hassoc
    refine ⟨ctxs, ⟨hready, fun k hk => monAssoc_ok hready hassoc hk, ?_⟩, ?_⟩
    · exact (RmidsKept.isFrame cores).trans hchecks ((RmidsKept.isFrame cores).trans hperf' hassoc')
    · exact Function.update_idem _ _ _
  · obtain ⟨_, _, -, h⟩ := bind_ok.1 h
    cases h

/-- The programming of the counters and the associations of a start. -/
abbrev startBody (p : Platform) (cores : List Nat) (event : MonEvent) (ctxs : List PollCtx) :
    EStateM Err Msr Unit := do
  ia32PerfCounterStart p cores event
  cores.forM (monAssocCtx p ctxs)

/-- Going back moves the cores to RMID 0 again. -/
abbrev startUndo (p : Platform) (cores : List Nat) : EStateM Err Msr Unit :=
  tryAll .error (fun core => monAssocSet p core 0) cores

def EventsListed (p : Platform) (event : MonEvent) : Prop :=
  ¬ ∃ i ∈ List.range 32, event.getLsbD i = true ∧ (p.capGetEvent (1#32 <<< i)).toOption = none

/-- A start fails in its checks, where it has changed nothing, or behind them, and then goes
back. -/
theorem hwMonStart_failed (h : (hwMonStart p cores event g).run σ = .error e σ') :
    (σ'.msr.mem = σ.msr.mem ∧ σ'.groups = σ.groups ∧ (¬ EventsListed p event
        ∨ ∀ ctxs s, (cores.foldlM (monCtx p event) []).run σ.msr ≠ .ok ctxs s))
      ∨ EventsListed p event ∧ ∃ ctxs s₁ s₂,
        (cores.foldlM (monCtx p event) []).run σ.msr = .ok ctxs s₁
          ∧ (startBody p cores event ctxs).run s₁ = .error e s₂
          ∧ σ'.msr = final ((startUndo p cores).run s₂)
          ∧ σ'.groups = Function.update σ.groups g MonData.zero := by
  unfold hwMonStart onMsr at h
  rcases bind_error.1 h with hc | ⟨_, σ, hc, h₁⟩
  · obtain ⟨hevents, -, rfl⟩ := failIf_error.1 hc
    exact Or.inl ⟨rfl, rfl, Or.inl (not_not.2 hevents)⟩
  obtain ⟨hevents, rfl⟩ := failIf_ok.1 hc
  rcases bind_error.1 h₁ with hctxs | ⟨ctxs, _, hctxs, h₂⟩
  · obtain ⟨t, ht, rfl⟩ := zoom_error.1 hctxs
    refine Or.inl ⟨(Keeps.foldlM (Frame.eq Msr.mem) fun _ _ _ => monCtx_keepsMem).of_error ht, rfl,
      Or.inr fun ctxs s hs => ?_⟩
    rw [ht] at hs
    cases hs
  obtain ⟨s₁, hs₁, rfl⟩ := zoom_ok.1 hctxs
  rcases bind_error.1 h₂ with hclear | ⟨_, _, hclear, h₃⟩
  · cases hclear
  cases hclear
  rcases bind_error.1 h₃ with hr | ⟨r, _, hr, h₄⟩
  · obtain ⟨_, hr, -⟩ := zoom_error.1 hr
    exact absurd hr attempt_ne_error
  obtain ⟨s₂, hs₂, rfl⟩ := zoom_ok.1 hr
  rcases attempt_ok.1 hs₂ with ⟨_, rfl, -⟩ | ⟨e', rfl, hfail⟩
  · cases h₄
  rcases bind_error.1 h₄ with hu | ⟨_, _, hu, h₅⟩
  · obtain ⟨_, hu, -⟩ := zoom_error.1 hu
    exact absurd hu attempt_ne_error
  obtain ⟨s₃, hundo, rfl⟩ := zoom_ok.1 hu
  cases h₅
  refine Or.inr ⟨hevents, ctxs, s₁, s₂, hs₁, hfail, ?_, rfl⟩
  rcases attempt_ok.1 hundo with ⟨_, -, hrun⟩ | ⟨_, -, hrun⟩
  · rw [hrun]
    rfl
  · rw [hrun]
    rfl

theorem startBody_keepsRmids : Keeps (RmidsKept cores) (startBody p cores event ctxs) :=
  Keeps.bind (RmidsKept.isFrame cores) (ia32PerfCounterStart_keepsRmids cores) fun _ =>
    Keeps.forM (RmidsKept.isFrame cores) fun _ hk => monAssocCtx_keepsRmids hk

theorem monCtxs_idle (h : (cores.foldlM (monCtx p event) []).run s = .ok ctxs t) :
    t.mem = s.mem ∧ ∀ k ∈ cores, k ∈ p.cpu.lcores ∧ s.rmid k = 0 := by
  refine foldlM_ok (fun pre _ t => t.mem = s.mem ∧ ∀ k ∈ pre, k ∈ p.cpu.lcores ∧ s.rmid k = 0) h
    ⟨rfl, by simp⟩ ?_
  intro pre a post b c t t' _ hI ha
  obtain ⟨hmem, hidle⟩ := hI
  refine ⟨(monCtx_keepsMem.of_ok ha).trans hmem, fun k hk => ?_⟩
  rcases List.mem_append.1 hk with hk | hk
  · exact hidle k hk
  · obtain rfl := List.mem_singleton.1 hk
    rw [← Msr.rmid_of_mem hmem]
    exact monCtx_idle ha

/-- A start that went back left every RMID as it was: what it moved, it moved back to 0, where it
had found it. -/
theorem startUndo_rmids {s₁ s₂ s₃ : Msr}
    (hctxs : (cores.foldlM (monCtx p event) []).run s = .ok ctxs s₁)
    (hbody : (startBody p cores event ctxs).run s₁ = .error e s₂)
    (hundo : (startUndo p cores).run s₂ = .ok u s₃) (k : Nat) : s₃.rmid k = s.rmid k := by
  obtain ⟨hmem, hidle⟩ := monCtxs_idle hctxs
  obtain ⟨hzero, hrest⟩ := monAssocSet_cleared hundo
  by_cases hk : k ∈ cores
  · exact (hzero k hk).trans (hidle k hk).2.symm
  · exact (hrest k hk).trans ((startBody_keepsRmids.of_error hbody k hk).trans
      (Msr.rmid_of_mem hmem k))

/-- A failed start changes no RMID. -/
theorem hwMonStart_error (hp : p.Reliable) (h : (hwMonStart p cores event g).run σ = .error e σ') :
    (∀ k, σ'.msr.rmid k = σ.msr.rmid k)
      ∧ (σ'.groups = σ.groups ∨ σ'.groups = Function.update σ.groups g MonData.zero) := by
  rcases hwMonStart_failed h with ⟨hmem, hgroups, -⟩ | ⟨-, ctxs, s₁, s₂, hctxs, hbody, hmsr,
    hgroups⟩
  · exact ⟨fun k => Msr.rmid_of_mem hmem k, Or.inl hgroups⟩
  · obtain ⟨s₃, hundo, -⟩ := monAssocSet_clears hp
      (fun k hk => ((monCtxs_idle hctxs).2 k hk).1) .error s₂
    refine ⟨fun k => ?_, Or.inr hgroups⟩
    rw [hmsr, hundo]
    exact startUndo_rmids hctxs hbody hundo k

end Start

/-! ## One stop -/

theorem monCheckCtx_keepsMem {p : Platform} {ctx : PollCtx} :
    Keeps (fun s t => t.mem = s.mem) (monCheckCtx p ctx) := by
  have hF : Frame fun s t : Msr => t.mem = s.mem := Frame.eq Msr.mem
  refine Keeps.bind hF (Keeps.failIf hF _ _) fun _ => Keeps.bind hF
    (Keeps.attempt monAssocGet_keepsMem) fun r => ?_
  rcases r with _ | r
  · exact Keeps.throw hF _
  · exact Keeps.pure hF _

/-- A stop that gets past its checks clears the group and moves its cores back to RMID 0; one that
does not changes nothing. -/
theorem hwMonStop_final {p : Platform} (hp : p.Reliable) {g : Nat} {σ σ' : MonState}
    (hknown : ∀ k ∈ (σ.groups g).cores, k ∈ p.cpu.lcores)
    (h : final ((hwMonStop p g).run σ) = σ') :
    ((∀ k, σ'.msr.rmid k = σ.msr.rmid k) ∧ σ'.groups = σ.groups)
      ∨ ((∀ k ∈ (σ.groups g).cores, σ'.msr.rmid k = 0)
        ∧ RmidsKept (σ.groups g).cores σ.msr σ'.msr
        ∧ σ'.groups = Function.update σ.groups g MonData.zero) := by
  unfold hwMonStop onMsr at h
  rw [get_bind, final_failIf_bind] at h
  split_ifs at h with hempty
  · subst h
    exact Or.inl ⟨fun _ => rfl, rfl⟩
  have hcheck : Keeps (fun s t : Msr => t.mem = s.mem)
      ((σ.groups g).pollCtx.forM (monCheckCtx p)) :=
    Keeps.forM (Frame.eq Msr.mem) fun _ _ => monCheckCtx_keepsMem
  rcases hc : ((σ.groups g).pollCtx.forM (monCheckCtx p)).run σ.msr with ⟨_, s₁⟩ | ⟨e, s₁⟩
  swap
  · rw [bind_of_error (zoom_error.2 ⟨s₁, hc, rfl⟩)] at h
    subst h
    exact Or.inl ⟨fun k => Msr.rmid_of_mem (hcheck.of_error hc) k, rfl⟩
  rw [bind_of_ok (zoom_ok.2 ⟨s₁, hc, rfl⟩)] at h
  obtain ⟨s₂, hundo, hzero, hrest⟩ := monAssocSet_clears hp hknown .error s₁
  have hundo' : (attempt (tryAll Err.error (fun core => monAssocSet p core 0) (σ.groups g).cores) :
      EStateM Err Msr _).run s₁ = .ok (.ok ()) s₂ := attempt_ok.2 (Or.inl ⟨(), rfl, hundo⟩)
  rw [bind_of_ok (zoom_ok.2 ⟨s₂, hundo', rfl⟩)] at h
  obtain ⟨r, s₃, hstop⟩ : ∃ r s₃, (attempt (ia32PerfCounterStop p (σ.groups g).cores
      (σ.groups g).event) : EStateM Err Msr _).run s₂ = .ok r s₃ := by
    rcases hr : (attempt (ia32PerfCounterStop p (σ.groups g).cores (σ.groups g).event) :
      EStateM Err Msr _).run s₂ with ⟨r, s₃⟩ | ⟨e, s₃⟩
    · exact ⟨r, s₃, rfl⟩
    · exact absurd hr attempt_ne_error
  have hperf : RmidsKept [] s₂ s₃ :=
    (Keeps.attempt (ia32PerfCounterStop_keepsRmids (p := p) [])).of_ok hstop
  rw [bind_of_ok (zoom_ok.2 ⟨s₃, hstop, rfl⟩)] at h
  have h' : (σ'.msr = s₃ ∧ σ'.groups = Function.update σ.groups g MonData.zero) := by
    subst h
    unfold failIf
    split_ifs <;> exact ⟨rfl, rfl⟩
  obtain ⟨hmsr, hgroups⟩ := h'
  subst hmsr
  refine Or.inr ⟨fun k hk => ?_, fun k hk => ?_, hgroups⟩
  · rw [hperf k List.not_mem_nil, hzero k hk]
  · rw [hperf k List.not_mem_nil, hrest k hk, Msr.rmid_of_mem (hcheck.of_ok hc)]

/-! ## Calls as steps of the lease system -/

section Refinement

variable (p : Platform)

abbrev Platform.Core := {k : Nat // k ∈ p.cpu.lcores}

def Platform.cluster (k : p.Core) : Except Err Nat := p.cpu.getClusterid k

/-- What an active group holds: its cores, and the RMID its contexts record for each cluster. -/
def MonData.grant (d : MonData) : Lease.Grant p.Core (Except Err Nat) Nat where
  members := {k | k.1 ∈ d.cores}
  tag cluster := (cluster.toOption.bind (ctxOf d.pollCtx)).elim 0 PollCtx.rmid

def MonState.view (σ : MonState) : Lease.State p.Core (Except Err Nat) Nat Nat where
  tag k := σ.msr.rmid k
  held g := if (σ.groups g).Active then some ((σ.groups g).grant p) else none

/-- An active group names cores of the topology, and has one context for each of their clusters. -/
structure GroupOk (d : MonData) : Prop where
  known : ∀ k ∈ d.cores, k ∈ p.cpu.lcores
  nodup : (d.pollCtx.map PollCtx.cluster).Nodup
  found : ∀ k ∈ d.cores, ∃ cluster c, p.cpu.getClusterid k = .ok cluster
    ∧ ctxOf d.pollCtx cluster = some c

def GroupsOk (σ : MonState) : Prop := ∀ g, (σ.groups g).Active → GroupOk p (σ.groups g)

variable {p} {σ σ' : MonState} {g : Nat}

theorem not_active_zero : ¬ MonData.zero.Active := by decide

theorem view_held {a : Lease.Grant p.Core (Except Err Nat) Nat} :
    (σ.view p).held g = some a ↔ (σ.groups g).Active ∧ (σ.groups g).grant p = a := by
  unfold MonState.view
  dsimp only
  split_ifs with h <;> simp [h]

theorem grant_tag {d : MonData} {cluster : Nat} {c : PollCtx}
    (h : ctxOf d.pollCtx cluster = some c) :
    (d.grant p).tag (.ok cluster) = c.rmid := by
  show ((some cluster).bind (ctxOf d.pollCtx)).elim 0 PollCtx.rmid = c.rmid
  rw [Option.bind_some, h, Option.elim_some]

/-- Clearing a group shows as the group holding nothing. -/
theorem view_held_update_zero (h : σ'.groups = Function.update σ.groups g MonData.zero) :
    (σ'.view p).held = Function.update (σ.view p).held g none := by
  funext g'
  unfold MonState.view
  dsimp only
  rw [h]
  by_cases hg : g' = g
  · subst hg
    rw [Function.update_self, Function.update_self, if_neg not_active_zero]
  · rw [Function.update_of_ne hg, Function.update_of_ne hg]

theorem GroupsOk.update_zero (hok : GroupsOk p σ)
    (h : σ'.groups = Function.update σ.groups g MonData.zero) : GroupsOk p σ' := by
  intro g' hg'
  rw [h] at hg' ⊢
  by_cases hg : g' = g
  · subst hg
    rw [Function.update_self] at hg'
    exact absurd hg' not_active_zero
  · rw [Function.update_of_ne hg] at hg' ⊢
    exact hok g' hg'

/-- A call that changes no RMID and no active group does nothing the lease system sees. -/
theorem step_of_kept (hok : GroupsOk p σ) (hr : ∀ k, σ'.msr.rmid k = σ.msr.rmid k)
    (hg : σ'.groups = σ.groups
      ∨ ¬ (σ.groups g).Active ∧ σ'.groups = Function.update σ.groups g MonData.zero) :
    Lease.Step p.cluster 0 (σ.view p) (σ'.view p) ∧ GroupsOk p σ' := by
  have htag : (σ'.view p).tag = (σ.view p).tag := funext fun k => hr k
  have hview (hheld : (σ'.view p).held = (σ.view p).held) :
      Lease.Step p.cluster 0 (σ.view p) (σ'.view p) := by
    refine .stutter ?_
    calc σ'.view p = ⟨(σ'.view p).tag, (σ'.view p).held⟩ := rfl
      _ = ⟨(σ.view p).tag, (σ.view p).held⟩ := by rw [htag, hheld]
  rcases hg with hg | ⟨hidle, hg⟩
  · refine ⟨hview ?_, fun g' hg' => ?_⟩
    · funext g'
      simp only [MonState.view, hg]
    · rw [hg] at hg' ⊢
      exact hok g' hg'
  · refine ⟨hview ?_, hok.update_zero hg⟩
    rw [view_held_update_zero hg]
    refine Function.update_eq_self_iff.2 ?_
    simp [MonState.view, hidle]

/-- A start that succeeds grants its cores the RMIDs of their clusters. -/
theorem step_of_started {cores : List Nat} {ctxs : List PollCtx} (event : MonEvent)
    (hok : GroupsOk p σ) (hidle : ¬ (σ.groups g).Active)
    (hs : Started p cores ctxs σ.msr σ'.msr)
    (hg : σ'.groups = Function.update σ.groups g ⟨groupValidMarker, event, ctxs, cores⟩) :
    Lease.Step p.cluster 0 (σ.view p) (σ'.view p) ∧ GroupsOk p σ' := by
  have hgrant : GroupOk p ⟨groupValidMarker, event, ctxs, cores⟩ := by
    refine ⟨fun k hk => (hs.ready.idle k hk).1, hs.ready.nodup, fun k hk => ?_⟩
    obtain ⟨cluster, c, hcl, hc, -⟩ := hs.ready.ctxOf hk
    exact ⟨cluster, c, hcl, hc⟩
  refine ⟨.grant g (MonData.grant p ⟨groupValidMarker, event, ctxs, cores⟩) ?_, fun g' hg' => ?_⟩
  · refine ⟨?_, fun k hk => (hs.ready.idle k hk).2, fun k hk k' hdom => ?_, fun k hk => ?_,
      fun k hk => hs.kept k hk, ?_⟩
    · simp [MonState.view, hidle]
    · obtain ⟨cluster, c, hcl, hc, hmem, rfl⟩ := hs.ready.ctxOf hk
      rw [show p.cluster k = .ok c.cluster from hcl, grant_tag hc]
      exact (hs.ready.free c hmem).2 k' (hdom.trans hcl)
    · obtain ⟨cluster, c, hcl, hc, hmoved⟩ := hs.moved k hk
      rw [show p.cluster k = .ok cluster from hcl, grant_tag hc]
      exact hmoved
    · funext g'
      unfold MonState.view
      dsimp only
      rw [hg]
      by_cases hgg : g' = g
      · subst hgg
        rw [Function.update_self, Function.update_self]
        exact if_pos rfl
      · rw [Function.update_of_ne hgg, Function.update_of_ne hgg]
  · rw [hg] at hg' ⊢
    by_cases hgg : g' = g
    · subst hgg
      rw [Function.update_self]
      exact hgrant
    · rw [Function.update_of_ne hgg] at hg' ⊢
      exact hok g' hg'

theorem step_of_stopped (hok : GroupsOk p σ) (hact : (σ.groups g).Active)
    (hzero : ∀ k ∈ (σ.groups g).cores, σ'.msr.rmid k = 0)
    (hkept : RmidsKept (σ.groups g).cores σ.msr σ'.msr)
    (hg : σ'.groups = Function.update σ.groups g MonData.zero) :
    Lease.Step p.cluster 0 (σ.view p) (σ'.view p) ∧ GroupsOk p σ' := by
  refine ⟨.release g ((σ.groups g).grant p) ⟨?_, fun k hk => hzero k hk, fun k hk => hkept k hk,
    view_held_update_zero hg⟩, hok.update_zero hg⟩
  exact view_held.2 ⟨hact, rfl⟩

variable (hp : p.Reliable) (hfit : p.RmidsFit)
include hp hfit

theorem pqosMonStart_refines (hok : GroupsOk p σ) {cores : List Nat} {event : MonEvent}
    (h : final ((pqosMonStart p cores event g).run σ) = σ') :
    Lease.Step p.cluster 0 (σ.view p) (σ'.view p) ∧ GroupsOk p σ' := by
  have hsame (h : σ = σ') : Lease.Step p.cluster 0 (σ.view p) (σ'.view p) ∧ GroupsOk p σ' :=
    step_of_kept hok (fun _ => by rw [h]) (Or.inl (by rw [h]) : _ ∨ ¬ (σ.groups g).Active ∧ _)
  unfold pqosMonStart at h
  rw [final_failIf_bind] at h
  split_ifs at h
  · exact hsame h
  rw [get_bind, final_failIf_bind] at h
  split_ifs at h with hidle
  · exact hsame h
  iterate 3
    rw [final_failIf_bind] at h
    split_ifs at h
    · exact hsame h
  rcases hr : (hwMonStart p cores event g).run σ with ⟨_, σ₁⟩ | ⟨e, σ₁⟩
  · rw [bind_of_ok hr] at h
    obtain ⟨ctxs, hs, hg⟩ := hwMonStart_ok hfit hr
    subst h
    refine step_of_started event hok hidle hs ?_
    show Function.update σ₁.groups g { σ₁.groups g with valid := groupValidMarker } = _
    rw [hg, Function.update_self, Function.update_idem]
  · rw [bind_of_error hr] at h
    obtain ⟨hrmid, hg⟩ := hwMonStart_error hp hr
    subst h
    exact step_of_kept hok hrmid (hg.imp_right fun hg => ⟨hidle, hg⟩)

omit hfit in
theorem pqosMonStop_refines (hok : GroupsOk p σ) (h : final ((pqosMonStop p g).run σ) = σ') :
    Lease.Step p.cluster 0 (σ.view p) (σ'.view p) ∧ GroupsOk p σ' := by
  have hsame (h : σ = σ') : Lease.Step p.cluster 0 (σ.view p) (σ'.view p) ∧ GroupsOk p σ' :=
    step_of_kept hok (fun _ => by rw [h]) (Or.inl (by rw [h]) : _ ∨ ¬ (σ.groups g).Active ∧ _)
  unfold pqosMonStop at h
  rw [get_bind, final_failIf_bind] at h
  by_cases hact : (σ.groups g).Active
  swap
  · rw [if_pos hact] at h
    exact hsame h
  rw [if_neg (not_not.2 hact), final_failIf_bind] at h
  split_ifs at h
  · exact hsame h
  rcases hwMonStop_final hp (hok g hact).known h with ⟨hrmid, hg⟩ | ⟨hzero, hkept, hg⟩
  · exact step_of_kept hok hrmid (Or.inl hg : _ ∨ ¬ (σ.groups g).Active ∧ _)
  · exact step_of_stopped hok hact hzero hkept hg

theorem monRun_refines (hok : GroupsOk p σ) (calls : List MonCall) :
    Relation.ReflTransGen (Lease.Step p.cluster 0) (σ.view p) ((monRun p calls σ).view p)
      ∧ GroupsOk p (monRun p calls σ) := by
  induction calls generalizing σ with
  | nil => exact ⟨.refl, hok⟩
  | cons call calls ih =>
    have hstep : Lease.Step p.cluster 0 (σ.view p) ((final ((monCall p call).run σ)).view p)
        ∧ GroupsOk p (final ((monCall p call).run σ)) := by
      cases call with
      | start cores event g => exact pqosMonStart_refines hp hfit hok rfl
      | stop g => exact pqosMonStop_refines hp hok rfl
    obtain ⟨hrest, hok'⟩ := ih hstep.2
    exact ⟨.head hstep.1 hrest, hok'⟩

end Refinement

/-! ## Ownership -/

/-- Who carries which RMID, in terms of the groups and the registers. -/
structure RmidOwned (p : Platform) (σ : MonState) : Prop where
  disjoint : ∀ g g' k, (σ.groups g).Active → (σ.groups g').Active → k ∈ (σ.groups g).cores →
    k ∈ (σ.groups g').cores → g = g'
  carries : ∀ g k, (σ.groups g).Active → k ∈ (σ.groups g).cores →
    ∃ cluster, p.cpu.getClusterid k = .ok cluster ∧ ∃ c ∈ (σ.groups g).pollCtx, c.cluster = cluster
      ∧ (∀ c' ∈ (σ.groups g).pollCtx, c'.cluster = cluster → c' = c)
      ∧ c.rmid ≠ 0 ∧ σ.msr.rmid k = c.rmid
  exclusive : ∀ g k k' cluster, (σ.groups g).Active → k ∈ (σ.groups g).cores →
    p.cpu.getClusterid k = .ok cluster → p.cpu.getClusterid k' = .ok cluster →
    k' ∉ (σ.groups g).cores → σ.msr.rmid k' ≠ σ.msr.rmid k
  idle : ∀ k ∈ p.cpu.lcores, (∀ g, (σ.groups g).Active → k ∉ (σ.groups g).cores) →
    σ.msr.rmid k = 0

theorem rmidOwned_of_view {p : Platform} {σ : MonState} (hok : GroupsOk p σ)
    (h : Lease.Owned p.cluster 0 (σ.view p)) : RmidOwned p σ where
  disjoint g g' k hg hg' hk hk' :=
    h.disjoint (view_held.2 ⟨hg, rfl⟩) (view_held.2 ⟨hg', rfl⟩) (k := ⟨k, (hok g hg).known k hk⟩)
      hk hk'
  carries g k hg hk := by
    obtain ⟨cluster, c, hcl, hc⟩ := (hok g hg).found k hk
    obtain ⟨htag, hne⟩ := h.carries (view_held.2 ⟨hg, rfl⟩) (k := ⟨k, (hok g hg).known k hk⟩) hk
    rw [show p.cluster ⟨k, (hok g hg).known k hk⟩ = .ok cluster from hcl, grant_tag hc] at htag
    have hmem := List.mem_of_find?_eq_some hc
    have hce : c.cluster = cluster := by simpa using List.find?_some hc
    refine ⟨cluster, hcl, c, hmem, hce, fun c' hc' he => ?_, fun hzero => hne ?_, htag⟩
    · exact List.inj_on_of_nodup_map (hok g hg).nodup hc' hmem (he.trans hce.symm)
    · exact htag.trans hzero
  exclusive g k k' cluster hg hk hcl hcl' hk' := by
    have hk'' : k' ∈ p.cpu.lcores := by
      obtain ⟨c, hc, -⟩ := CpuInfo.getClusterid_ok.1 hcl'
      exact CpuInfo.mem_lcores.2 ⟨c, hc⟩
    have hdom : p.cluster ⟨k', hk''⟩ = p.cluster ⟨k, (hok g hg).known k hk⟩ :=
      Eq.trans hcl' hcl.symm
    exact h.exclusive (view_held.2 ⟨hg, rfl⟩) hk hdom hk'
  idle k hk hfree := by
    refine h.spare (k := ⟨k, hk⟩) fun g a ha => ?_
    obtain ⟨hg, rfl⟩ := view_held.1 ha
    exact hfree g hg

/-- From a state in which no group is active and every core carries RMID 0, any run of starts and
stops, whatever succeeds and whatever is rejected, leaves every RMID with its owner. -/
theorem monRun_rmidOwned {p : Platform} (hp : p.Reliable) (hfit : p.RmidsFit) {σ : MonState}
    (hzero : ∀ k ∈ p.cpu.lcores, σ.msr.rmid k = 0) (hnone : ∀ g, ¬ (σ.groups g).Active)
    (calls : List MonCall) : RmidOwned p (monRun p calls σ) := by
  have hok : GroupsOk p σ := fun g hg => absurd hg (hnone g)
  obtain ⟨hsteps, hok'⟩ := monRun_refines hp hfit hok calls
  refine rmidOwned_of_view hok' (Lease.owned_of_steps (Lease.Owned.initial ?_ ?_) hsteps)
  · exact fun k => hzero k k.2
  · exact fun g => if_neg (hnone g)

/-- One cluster of two cores that monitors L3 occupancy with four RMIDs. -/
def monPlatform : Platform := smallPlatform [⟨true, .mon ⟨4, [⟨monEventL3Occup, 4, true, 65536⟩]⟩⟩]

/-- Both cores start in one group, a second start of core 1 is rejected, the group stops, and core
1 starts again. -/
def monCalls : List MonCall :=
  [.start [0, 1] monEventL3Occup 0, .start [1] monEventL3Occup 1, .stop 0,
    .start [1] monEventL3Occup 2]

def idleState : MonState := ⟨⟨fun _ => 0, []⟩, fun _ => MonData.zero⟩

theorem monRun_rmidOwned_small :
    RmidOwned monPlatform (monRun monPlatform monCalls idleState)
      ∧ ((monRun monPlatform monCalls idleState).groups 2).Active
      ∧ (monRun monPlatform monCalls idleState).msr.rmid 1 = 3 := by
  have hzero (k : Nat) : idleState.msr.rmid k = 0 := show rmidOf 0#64 = 0 by decide
  refine ⟨monRun_rmidOwned (smallPlatform_reliable _) (fun mon h => ?_) (fun k _ => hzero k)
    (fun _ => not_active_zero) monCalls, by decide, by decide⟩
  obtain rfl : (⟨4, [⟨monEventL3Occup, 4, true, 65536⟩]⟩ : CapMon) = mon := Except.ok.inj h
  decide

end Pqos
