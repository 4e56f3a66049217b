import Pqos.Proofs.Assign
import Pqos.Proofs.MbaBackends
import Pqos.Proofs.RoundTrip
import Pqos.Proofs.Store

/-!
# The registers as a store

Each class of the store is a register of a bank, seen from one core of its socket or L2 cluster, and
the class of a core is the high half of its association register. The banks do not overlap and
sockets and clusters have registers of their own, so a write changes one place of the store. The
machine may refuse any access: a call of several may then have done part of its work.
-/

namespace Pqos

open Prog Refine Table

variable (p : Platform)

/-! ## The view -/

/-- What class `k` holds, where the platform has it and a core to reach it by. -/
def heldBy {α : Type} (count core : Except Err Nat) (k : Nat) (v : Nat → α) : Option α :=
  match count, core with
  | .ok n, .ok core => if k < n then some (v core) else none
  | _, _ => none

def msrRules : StoreRules where
  cdpOn := p.l3caCdpEnabled.toOption.getD false
  rate r :=
    match p.capGetType CapItem.mba? with
    | .ok c => mbaRateOf (BitVec.ofNat 64 (mbaDelay c r))
    | .error _ => r
  near technology core k := ∃ ca ∈ p.cpu.cores, ∃ ck ∈ p.cpu.cores,
    ca.lcore = core ∧ ck.lcore = k ∧ scopeId technology ck = scopeId technology ca

def msrView (s : Msr) : Store where
  cos lcore := if lcore ∈ p.cpu.lcores then some (s.cos lcore) else none
  task _ := none
  l3 x := heldBy p.l3caGetCosNum (p.cpu.getOneCore x.1) x.2 fun core =>
    (l3View p (msrRules p).cdpOn core s x.2).u
  l2 x := heldBy p.l2caGetCosNum (p.cpu.getOneByL2id x.1) x.2 fun core =>
    (l2View p core s x.2).waysMask
  mba x := heldBy p.mbaGetCosNum (p.cpu.getOneCore x.1) x.2 fun core => hwRateOf p core s x.2

/-- The L3 setter does not look at the class ids of its request. -/
def MsrFits : AllocCall → Prop
  | .l3caSet _ ca => ∀ c, p.capGetType CapItem.l3ca? = .ok c → ∀ e ∈ ca, e.classId < c.numClasses
  | _ => True

variable {p}

theorem msrFits_l3caSet {c : CapL3ca} (hc : p.capGetType CapItem.l3ca? = .ok c) {ca : List L3ca}
    (hca : ∀ e ∈ ca, e.classId < c.numClasses) (socket : Nat) : MsrFits p (.l3caSet socket ca) :=
  fun _ hc' => Except.ok.inj (hc.symm.trans hc') ▸ hca

section HeldBy

variable {α : Type} {count core : Except Err Nat} {n c k : Nat} {v v' : Nat → α}

theorem heldBy_ok (hn : count = .ok n) (hc : core = .ok c) :
    heldBy count core k v = if k < n then some (v c) else none := by rw [hn, hc, heldBy]

theorem heldBy_eq_some {m : α} (h : heldBy count core k v = some m) :
    ∃ n c, count = .ok n ∧ core = .ok c ∧ k < n ∧ v c = m := by
  unfold heldBy at h
  split at h
  · split_ifs at h with hk
    exact ⟨_, _, rfl, rfl, hk, Option.some.inj h⟩
  · cases h

theorem heldBy_congr (h : ∀ n c, count = .ok n → core = .ok c → k < n → v c = v' c) :
    heldBy count core k v = heldBy count core k v' := by
  rcases count with e | n
  · rfl
  rcases core with e | c
  · rfl
  rw [heldBy_ok rfl rfl, heldBy_ok rfl rfl]
  split_ifs with hk
  · rw [h n c rfl rfl hk]
  · rfl

end HeldBy

theorem msrView_of_mem {s t : Msr} (h : t.mem = s.mem) : msrView p t = msrView p s := by
  simp only [msrView, Msr.cos, Msr.assoc, l3View, l2View, hwRateOf, Msr.read, h]

theorem msrRules_cdpOn {c : CapL3ca} (hc : p.capGetType CapItem.l3ca? = .ok c) :
    (msrRules p).cdpOn = c.cdpOn := by
  have hon : p.l3caCdpEnabled = .ok c.cdpOn := l3caCdpEnabled_ok.2 ⟨c, hc, rfl⟩
  simp only [msrRules, hon]
  rfl

/-! ## The banks -/

def Loc.reg : Loc → Nat
  | .core _ reg => reg
  | .cluster _ reg => reg
  | .socket _ reg => reg

theorem CpuInfo.loc_reg (cpu : CpuInfo) (lcore reg : Nat) : (cpu.loc lcore reg).reg = reg := by
  unfold CpuInfo.loc
  split
  · rfl
  · split_ifs <;> rfl

/-- A register with a number that nothing was stored under reads as before. -/
theorem Stores.read_other {core lcore reg : Nat} {w : Nat → Option Word} {s t : Msr}
    (h : Stores p core w s t) (hreg : w reg = none) :
    t.read p.cpu lcore reg = s.read p.cpu lcore reg := by
  refine h.frame _ fun r v hr hloc => ?_
  have := congrArg Loc.reg hloc
  rw [CpuInfo.loc_reg, CpuInfo.loc_reg] at this
  rw [← this, hreg] at hr
  cases hr

theorem Stores.cos_other {core lcore : Nat} {w : Nat → Option Word} {s t : Msr}
    (h : Stores p core w s t) (hreg : w msrAssoc = none) : t.cos lcore = s.cos lcore := by
  rw [Msr.cos, Msr.cos, ← Msr.read_assoc t p.cpu, ← Msr.read_assoc s p.cpu, h.read_other hreg]

section Regs

variable (hfit : p.FitsBanks)
include hfit

theorem l2caReg_bank {c : CapL2ca} {k : Nat} (hc : p.capGetType CapItem.l2ca? = .ok c)
    (hk : k < c.numClasses) : l2caReg k = k + msrL2caMaskStart ∧ l2caReg k < msrMbaMaskStart := by
  have := hfit.l2 c hc
  simp only [l2caReg, msrL2caMaskStart, msrMbaMaskStart] at this ⊢
  omega

theorem mbaReg_bank {c : CapMba} {k : Nat} (hc : p.capGetType CapItem.mba? = .ok c)
    (hk : k < c.numClasses) : mbaReg k = k + msrMbaMaskStart := by
  have := hfit.mba c hc
  simp only [mbaReg, msrMbaMaskStart] at this ⊢
  omega

end Regs

/-! ## What a store of registers changes -/

section Parts

variable {core : Nat} {w : Nat → Option Word} {s t : Msr} (h : Stores p core w s t)
include h

theorem Stores.view_cos (hw : w msrAssoc = none) : (msrView p t).cos = (msrView p s).cos := by
  funext lcore
  simp only [msrView, h.cos_other hw]

variable (hfit : p.FitsBanks)
include hfit

theorem Stores.view_l3 (hw : ∀ r, msrL3caMaskStart ≤ r → r ≤ msrL3caMaskEnd → w r = none) :
    (msrView p t).l3 = (msrView p s).l3 := by
  funext x
  refine heldBy_congr fun n c' hn _ hk => ?_
  obtain ⟨c, hc, rfl⟩ := l3caGetCosNum_ok.1 hn
  have hdata := l3caReg_bank hfit hc hk
  rw [msrRules_cdpOn hc]
  unfold l3View
  split_ifs with hon
  · have hcode := codeReg_bank hfit hc hk hon
    rw [hon] at hdata
    rw [h.read_other (hw _ hdata.1 hdata.2), h.read_other (hw _ hcode.1 hcode.2)]
  · rw [Bool.not_eq_true] at hon
    rw [hon] at hdata
    rw [h.read_other (hw _ hdata.1 hdata.2)]

theorem Stores.view_l2 (hw : ∀ r, msrL2caMaskStart ≤ r → r < msrMbaMaskStart → w r = none) :
    (msrView p t).l2 = (msrView p s).l2 := by
  funext x
  refine heldBy_congr fun n c' hn _ hk => ?_
  obtain ⟨c, hc, rfl⟩ := l2caGetCosNum_ok.1 hn
  obtain ⟨hreg, hlt⟩ := l2caReg_bank hfit hc hk
  unfold l2View
  rw [h.read_other (hw _ (by omega) hlt)]

theorem Stores.view_mba (hw : ∀ r, msrMbaMaskStart ≤ r → w r = none) :
    (msrView p t).mba = (msrView p s).mba := by
  funext x
  refine heldBy_congr fun n c' hn _ hk => ?_
  obtain ⟨c, hc, rfl⟩ := mbaGetCosNum_ok.1 hn
  have hreg := mbaReg_bank hfit hc hk
  unfold hwRateOf
  rw [h.read_other (hw _ (by omega))]

end Parts

/-- In a bank with one register for each class, a store of one register is one of its class. -/
theorem heldBy_stores {α : Type} {count : Except Err Nat} {coreOf : Nat → Except Err Nat}
    {regOf : Nat → Nat} (g : Word → α) {n id core k : Nat} {v : Word} {s t : Msr}
    (hn : count = .ok n) (hcore : coreOf id = .ok core) (hk : k < n)
    (hinj : ∀ j < n, regOf j = regOf k → j = k)
    (hsep : ∀ id' core', coreOf id' = .ok core' → id' ≠ id →
      p.cpu.loc core' (regOf k) ≠ p.cpu.loc core (regOf k))
    (h : Stores p core (fun r => if r = regOf k then some v else none) s t) :
    (fun x : Nat × Nat => heldBy count (coreOf x.1) x.2 fun c => g (t.read p.cpu c (regOf x.2)))
      = Function.update
        (fun x => heldBy count (coreOf x.1) x.2 fun c => g (s.read p.cpu c (regOf x.2)))
        (id, k) (some (g v)) := by
  funext ⟨id', j⟩
  by_cases hx : (id', j) = (id, k)
  · cases hx
    rw [Function.update_self, heldBy_ok hn hcore, if_pos hk, h.read, if_pos rfl, Option.getD_some]
  · rw [Function.update_of_ne hx]
    refine heldBy_congr fun n' core' hn' hcore' hj => congrArg g ?_
    obtain rfl : n' = n := Except.ok.inj (hn'.symm.trans hn)
    by_cases hjk : j = k
    · subst hjk
      refine h.frame _ fun r v' hv => ?_
      split_ifs at hv with hr
      rw [hr]
      exact hsep id' core' hcore' fun hid => hx (by rw [hid])
    · exact h.read_other (if_neg fun hreg => hjk (hinj j hj hreg))

/-! ## L3 -/

section L3

variable {c : CapL3ca} {core socket : Nat} {e : L3ca} {w : Nat → Option Word} {s t : Msr}
  (hfit : p.FitsBanks) (hc : p.capGetType CapItem.l3ca? = .ok c) (he : e.classId < c.numClasses)
  (hcore : p.cpu.getOneCore socket = .ok core)
include hfit hc he hcore

/-- A store of registers of one class on one socket leaves every other class on every socket. -/
theorem l3View_apart (h : Stores p core w s t)
    (hw : ∀ r v, w r = some v → r = l3caReg c.cdpOn e.classId
      ∨ c.cdpOn = true ∧ r = (l3caReg true e.classId + 1) % 2 ^ 32)
    {socket' core' j : Nat} (hcore' : p.cpu.getOneCore socket' = .ok core') (hj : j < c.numClasses)
    (hne : (socket', j) ≠ (socket, e.classId)) :
    l3View p c.cdpOn core' t j = l3View p c.cdpOn core' s j := by
  obtain ⟨a, ha, rfl, hsock⟩ := CpuInfo.getOneCore_ok hcore
  obtain ⟨a', ha', rfl, hsock'⟩ := CpuInfo.getOneCore_ok hcore'
  have hclass : ∀ r, msrL3caMaskStart ≤ r ∧ r ≤ msrL3caMaskEnd →
      (∀ v, w r = some v → j = e.classId) →
      t.read p.cpu a'.lcore r = s.read p.cpu a'.lcore r := by
    intro r hbank hr
    refine h.frame _ fun r' v hv hloc => hne ?_
    have hreg := congrArg Loc.reg hloc
    rw [CpuInfo.loc_reg, CpuInfo.loc_reg] at hreg
    subst hreg
    rw [CpuInfo.loc_socket ha' (Or.inl hbank), CpuInfo.loc_socket ha (Or.inl hbank), hsock,
      hsock'] at hloc
    rw [(Loc.socket.inj hloc).1, hr v hv]
  have hdata := hclass _ (l3caReg_bank hfit hc hj) fun v hv => by
    rcases hw _ v hv with hr | ⟨hon, hr⟩
    · exact l3caReg_inj hfit hc hj he hr
    · rw [hon] at hr
      exact absurd hr.symm (codeReg_ne e.classId j)
  unfold l3View
  split_ifs with hon
  · have hcode := hclass _ (codeReg_bank hfit hc hj hon) fun v hv => by
      rcases hw _ v hv with hr | ⟨-, hr⟩
      · rw [hon] at hr
        exact absurd hr (codeReg_ne j e.classId)
      · exact codeReg_inj hfit hc hj he hon hr
    rw [hon] at hdata
    rw [hdata, hcode]
  · rw [Bool.not_eq_true] at hon
    rw [hon] at hdata
    rw [hdata]

/-- The store after registers of one class on one socket were written. -/
theorem msrView_l3 (h : Stores p core w s t)
    (hw : ∀ r v, w r = some v → r = l3caReg c.cdpOn e.classId
      ∨ c.cdpOn = true ∧ r = (l3caReg true e.classId + 1) % 2 ^ 32) :
    msrView p t = { msrView p s with
      l3 := Function.update (msrView p s).l3 (socket, e.classId)
        (some (l3View p c.cdpOn core t e.classId).u) } := by
  have hdata := l3caReg_bank hfit hc he
  have hbank : ∀ r, (r < msrL3caMaskStart ∨ msrL3caMaskEnd < r) → w r = none := by
    intro r hr
    rcases hv : w r with _ | v
    · rfl
    · rcases hw r v hv with hreg | ⟨hon, hreg⟩
      · omega
      · have := codeReg_bank hfit hc he hon
        omega
  refine Store.ext (h.view_cos (hbank _ (Or.inl ?_))) rfl ?_ (h.view_l2 hfit fun r hr _ => ?_)
    (h.view_mba hfit fun r hr => ?_)
  · simp only [msrAssoc, msrL3caMaskStart]
    omega
  · funext x
    obtain ⟨socket', j⟩ := x
    have hn : p.l3caGetCosNum = .ok c.numClasses := l3caGetCosNum_ok.2 ⟨c, hc, rfl⟩
    by_cases hx : (socket', j) = (socket, e.classId)
    · cases hx
      simp only [Function.update_self, msrView, heldBy_ok hn hcore, if_pos he, msrRules_cdpOn hc]
    · simp only [Function.update_of_ne hx, msrView, msrRules_cdpOn hc]
      refine heldBy_congr fun n core' hn' hcore' hj => ?_
      obtain rfl : n = c.numClasses := Except.ok.inj (hn'.symm.trans hn)
      rw [l3View_apart hfit hc he hcore h hw hcore' hj hx]
  · refine hbank r (Or.inr ?_)
    simp only [msrL2caMaskStart, msrL3caMaskEnd] at hr ⊢
    omega
  · refine hbank r (Or.inr ?_)
    simp only [msrMbaMaskStart, msrL3caMaskEnd] at hr ⊢
    omega

omit hfit hc he hcore in
theorem l3caPuts_regs {cdpOn : Bool} {r : Nat} {v : Word} (h : l3caPuts cdpOn e r = some v) :
    r = l3caReg cdpOn e.classId ∨ cdpOn = true ∧ r = (l3caReg true e.classId + 1) % 2 ^ 32 := by
  unfold l3caPuts at h
  cases cdpOn <;> split_ifs at h <;> simp_all

theorem msrView_putL3 (h : Stores p core (l3caPuts c.cdpOn e) s t) :
    msrView p t = Store.putL3 c.cdpOn socket e (msrView p s) := by
  have hput : (l3View p c.cdpOn core t e.classId).u = e.u.held c.cdpOn := by
    have hdata := h.read (l3caReg c.cdpOn e.classId)
    rw [l3caPuts_dataReg hfit hc he he rfl, if_pos rfl, Option.getD_some] at hdata
    unfold l3View L3Masks.held
    split_ifs with hon
    · have hcode := h.read ((l3caReg true e.classId + 1) % 2 ^ 32)
      rw [l3caPuts_codeReg hfit hc he he hon rfl, if_pos rfl, Option.getD_some] at hcode
      rw [hon] at hdata
      rw [hdata, hcode]
    · rw [Bool.not_eq_true] at hon
      rw [hon] at hdata
      rw [hdata]
  rw [msrView_l3 hfit hc he hcore h fun r v => l3caPuts_regs, hput]
  rfl

/-- With two masks, a refused write of the second leaves the first in place. -/
theorem msrView_halfL3 (hon : c.cdpOn = true)
    (h : Stores p core
      (fun r => if r = l3caReg true e.classId then some e.u.dataMask else none) s t) :
    Store.halfL3 c.cdpOn socket e (msrView p s) (msrView p t) := by
  refine ⟨hon, ?_⟩
  have hn : p.l3caGetCosNum = .ok c.numClasses := l3caGetCosNum_ok.2 ⟨c, hc, rfl⟩
  have hold : (msrView p s).l3 (socket, e.classId) = some (l3View p true core s e.classId).u := by
    simp only [msrView, heldBy_ok hn hcore, if_pos he, msrRules_cdpOn hc, hon]
  have hhalf : (l3View p true core t e.classId).u
      = .s e.u.dataMask (l3View p true core s e.classId).u.codeMask := by
    simp only [l3View, if_true, h.read, if_neg (codeReg_ne e.classId e.classId), Option.getD_some,
      Option.getD_none, L3Masks.codeMask]
  rw [msrView_l3 hfit hc he hcore h fun r v hv => ?_, hold, Option.map_some, hon, hhalf]
  split_ifs at hv with hr
  exact Or.inl (hr.trans (by rw [hon]))

/-- One entry is written, half written, or not. -/
theorem l3caWrite_shows :
    Shows (msrView p) (SetsAll (Store.putL3 c.cdpOn socket) (Store.halfL3 c.cdpOn socket) [e]
      fun _ => True) (l3caWrite p c.cdpOn core e) := by
  intro s
  rcases hrun : (l3caWrite p c.cdpOn core e).run s with ⟨⟨⟩, t⟩ | ⟨err, t⟩
  · exact ⟨fun _ _ => ⟨trivial, msrView_putL3 hfit hc he hcore (l3caWrite_stores hrun).1⟩, nofun⟩
  refine ⟨nofun, fun _ _ => ⟨[], List.nil_prefix, ?_⟩⟩
  unfold l3caWrite l3caWriteCdp l3caWriteNoCdp at hrun
  rcases hon : c.cdpOn with _ | _ <;> rw [hon] at hrun
  · refine Or.inl (msrView_of_mem ?_)
    rcases e with ⟨k, m | ⟨d, m⟩⟩
    · exact msrWrite_error hrun
    · cases hrun
      rfl
  · rw [if_pos rfl, bind_error] at hrun
    rcases hrun with hrun | ⟨_, s', hdata, hrun⟩
    · exact Or.inl (msrView_of_mem (msrWrite_error hrun))
    · refine Or.inr ⟨e, List.prefix_rfl, ?_⟩
      have hview : msrView p t = msrView p s' := msrView_of_mem (msrWrite_error hrun)
      rw [List.foldl_nil, final_error, hview, ← hon]
      exact msrView_halfL3 hfit hc he hcore hon (msrWrite_stores hdata)

end L3

/-! ## L2 and MBA -/

/-- What a successful write makes of the store is what the write shows. -/
theorem msrWrite_shows {core reg : Nat} {v : Word} {f : Store → Store}
    (h : ∀ s t, Stores p core (fun r => if r = reg then some v else none) s t →
      msrView p t = f (msrView p s)) : Shows (msrView p) (Sets f) (msrWrite p core reg v) := by
  intro s
  rcases hrun : (msrWrite p core reg v).run s with ⟨⟨⟩, t⟩ | ⟨e, t⟩
  · exact Sets.of_ok (h s t (msrWrite_stores hrun))
  · exact Sets.of_error (msrView_of_mem (msrWrite_error hrun))

theorem l2caWrite_shows (hfit : p.FitsBanks) {c : CapL2ca} {core l2id : Nat} {e : L2ca}
    (hc : p.capGetType CapItem.l2ca? = .ok c) (he : e.classId < c.numClasses)
    (hcore : p.cpu.getOneByL2id l2id = .ok core) :
    Shows (msrView p) (Sets (Store.putL2 l2id e)) (l2caWrite p core e) := by
  obtain ⟨hreg, hlt⟩ := l2caReg_bank hfit hc he
  refine msrWrite_shows fun s t h => Store.ext (h.view_cos (if_neg ?_)) rfl
    (h.view_l3 hfit fun r _ hr => if_neg ?_) ?_ (h.view_mba hfit fun r hr => if_neg ?_)
  · simp only [msrAssoc, msrL2caMaskStart] at hreg ⊢
    omega
  · simp only [msrL3caMaskEnd, msrL2caMaskStart] at hreg hr
    omega
  · refine (heldBy_stores (BitVec.setWidth 32) (l2caGetCosNum_ok.2 ⟨c, hc, rfl⟩) hcore he
      ?_ ?_ h).trans ?_
    · intro j hj hjr
      have := (l2caReg_bank hfit hc hj).1
      omega
    · intro id' core' hcore' hid hloc
      obtain ⟨a, ha, rfl, hl2⟩ := CpuInfo.getOneByL2id_ok hcore
      obtain ⟨a', ha', rfl, hl2'⟩ := CpuInfo.getOneByL2id_ok hcore'
      rw [CpuInfo.loc_cluster ha (by omega) hlt, CpuInfo.loc_cluster ha' (by omega) hlt, hl2,
        hl2'] at hloc
      exact hid (Loc.cluster.inj hloc).1
    · have hmask : BitVec.setWidth 32 (e.waysMask.setWidth 64) = e.waysMask := by
        rw [BitVec.setWidth_setWidth_of_le _ (by decide), BitVec.setWidth_eq]
      rw [hmask]
      rfl
  · omega

theorem msrView_putMba (hfit : p.FitsBanks) {c : CapMba} {core socket : Nat} {e : Mba} {s t : Msr}
    (hc : p.capGetType CapItem.mba? = .ok c) (he : e.classId < c.numClasses)
    (hcore : p.cpu.getOneCore socket = .ok core) (h : Stores p core (mbaPuts c e) s t) :
    msrView p t = Store.putMba (msrRules p).rate socket e (msrView p s) := by
  have hreg := mbaReg_bank hfit hc he
  refine Store.ext (h.view_cos (if_neg ?_)) rfl (h.view_l3 hfit fun r _ hr => if_neg ?_)
    (h.view_l2 hfit fun r _ hr => if_neg ?_) ?_
  · simp only [msrAssoc, msrMbaMaskStart] at hreg ⊢
    omega
  · simp only [msrL3caMaskEnd, msrMbaMaskStart] at hreg hr
    omega
  · omega
  · refine (heldBy_stores mbaRateOf (mbaGetCosNum_ok.2 ⟨c, hc, rfl⟩) hcore he ?_ ?_ h).trans ?_
    · intro j hj hjr
      have := mbaReg_bank hfit hc hj
      omega
    · intro socket' core' hcore' hid hloc
      obtain ⟨a, ha, rfl, hsock⟩ := CpuInfo.getOneCore_ok hcore
      obtain ⟨a', ha', rfl, hsock'⟩ := CpuInfo.getOneCore_ok hcore'
      have hbank : msrMbaMaskStart ≤ mbaReg e.classId := by omega
      rw [CpuInfo.loc_socket ha (Or.inr (Or.inl hbank)),
        CpuInfo.loc_socket ha' (Or.inr (Or.inl hbank)), hsock, hsock'] at hloc
      exact hid (Loc.socket.inj hloc).1
    · have hrate : (msrRules p).rate e.mbRate
          = mbaRateOf (BitVec.ofNat 64 (mbaDelay c e.mbRate)) := by
        simp only [msrRules, hc]
      simp only [Store.putMba, hrate]
      rfl

theorem mbaWrite_shows (hfit : p.FitsBanks) {c : CapMba} {core socket : Nat} {e : Mba}
    (hc : p.capGetType CapItem.mba? = .ok c) (he : e.classId < c.numClasses)
    (hcore : p.cpu.getOneCore socket = .ok core) :
    Shows (msrView p) (Sets (Store.putMba (msrRules p).rate socket e)) (mbaWrite p c core e) :=
  msrWrite_shows fun _ _ h => msrView_putMba hfit hc he hcore h

/-- What is read back is the rate as the register keeps it. -/
theorem mbaWriteActual_shows (hfit : p.FitsBanks) {c : CapMba} {core socket : Nat} {e : Mba}
    (hc : p.capGetType CapItem.mba? = .ok c) (he : e.classId < c.numClasses)
    (hcore : p.cpu.getOneCore socket = .ok core) :
    Shows (msrView p) (SetsAll (Store.putMba (msrRules p).rate socket) whole [e]
      fun b => b = ⟨e.classId, (msrRules p).rate e.mbRate⟩) (mbaWriteActual p c core e) := by
  intro s
  unfold mbaWriteActual
  rcases hw : (mbaWrite p c core e).run s with ⟨⟨⟩, s'⟩ | ⟨err, s'⟩
  · have hput := ((mbaWrite_shows hfit hc he hcore).of_ok hw).1 ⟨⟩ rfl
    rw [bind_of_ok hw]
    rcases hr : (msrRead p core (mbaReg e.classId)).run s' with ⟨v, t⟩ | ⟨err, t⟩
    · obtain ⟨rfl, rfl⟩ := msrRead_ok hr
      rw [bind_of_ok hr]
      refine ⟨fun b hb => ⟨?_, hput⟩, nofun⟩
      have hread := (msrWrite_stores hw).read (mbaReg e.classId)
      rw [if_pos rfl, Option.getD_some] at hread
      cases hb
      simp only [hread, msrRules, hc]
    · rw [bind_of_error hr]
      refine ⟨nofun, fun _ _ => ⟨[e], List.prefix_rfl, Or.inl ?_⟩⟩
      exact (msrView_of_mem (msrRead_error hr)).trans hput
  · rw [bind_of_error hw]
    refine ⟨nofun, fun _ _ => ⟨[], List.nil_prefix, Or.inl ?_⟩⟩
    exact msrView_of_mem (msrWrite_error hw)

/-! ## Associations -/

theorem msrView_move {lcore c : Nat} {s t : Msr} (hc : c < 2 ^ 32) (hfit : p.FitsBanks)
    (h : t.mem = Function.update s.mem (.core lcore msrAssoc) (withCos (s.assoc lcore) c)) :
    msrView p t = Store.move c [lcore] (msrView p s) := by
  have hst : Stores p lcore
      (fun r => if r = msrAssoc then some (withCos (s.assoc lcore) c) else none) s t :=
    Stores.of_update (by rw [h, CpuInfo.loc_assoc])
  have hmoved : Moved [lcore] c s t := (Moved.nil rfl).snoc h
  refine Store.ext ?_ rfl (hst.view_l3 hfit fun r hr _ => if_neg ?_)
    (hst.view_l2 hfit fun r hr _ => if_neg ?_) (hst.view_mba hfit fun r hr => if_neg ?_)
  · funext k
    simp only [msrView, Store.move, Store.moved]
    by_cases hk : k ∈ [lcore]
    · rw [if_pos hk, hmoved.cos hc hk]
      split_ifs <;> rfl
    · rw [if_neg hk, hmoved.cos_other hk]
  · simp only [msrAssoc, msrL3caMaskStart] at hr ⊢
    omega
  · simp only [msrAssoc, msrL2caMaskStart] at hr ⊢
    omega
  · simp only [msrAssoc, msrMbaMaskStart] at hr ⊢
    omega

theorem cosAssocSet_shows (hfit : p.FitsBanks) {lcore c : Nat} (hc : c < 2 ^ 32) :
    Shows (msrView p) (Sets (Store.move c [lcore])) (cosAssocSet p lcore c) := by
  intro s
  rcases hrun : (cosAssocSet p lcore c).run s with ⟨⟨⟩, t⟩ | ⟨e, t⟩
  · exact Sets.of_ok (msrView_move hc hfit (cosAssocSet_ok hrun))
  · exact Sets.of_error (msrView_of_mem (cosAssocSet_error hrun))

/-! ## The back end -/

/-- A program that changes no register and answers from the store it sees. -/
theorem shows_reads {α : Type} {P : Store → α → Prop} {x : EStateM Err Msr α}
    (hkeeps : Keeps (fun s t => t.mem = s.mem) x)
    (hok : ∀ s a t, x.run s = .ok a t → P (msrView p s) a) : Shows (msrView p) (Reads P) x := by
  intro s
  refine ⟨msrView_of_mem (hkeeps s), fun a ha => ?_⟩
  rcases hrun : x.run s with ⟨b, t⟩ | ⟨e, t⟩ <;> rw [hrun] at ha
  · cases ha
    exact hok s a t hrun
  · cases ha

theorem msrRead_keeps {core reg : Nat} : Keeps (fun s t => t.mem = s.mem) (msrRead p core reg) := by
  intro s
  rcases hrun : (msrRead p core reg).run s with ⟨v, t⟩ | ⟨e, t⟩
  · rw [final_ok, (msrRead_ok hrun).2, Msr.log_mem]
  · exact msrRead_error hrun

theorem getElem?_range_map {α : Type} (f : Nat → α) (n k : Nat) :
    ((List.range n).map f)[k]? = if k < n then some (f k) else none := by
  rw [List.getElem?_map]
  split_ifs with hk
  · rw [List.getElem?_range hk, Option.map_some]
  · rw [List.getElem?_eq_none (by simpa using Nat.not_lt.1 hk), Option.map_none]

theorem memFrame : Frame fun s t : Msr => t.mem = s.mem := Frame.eq Msr.mem

theorem hwL3caGet_shows (socket m : Nat) : Shows (msrView p) (Reads fun a (tab : List L3ca) =>
    ∀ k, tab[k]? = (a.l3 (socket, k)).map (L3ca.mk k)) (hwL3caGet p socket m) := by
  refine shows_reads ?_ fun s tab t h k => ?_
  · refine keeps_ofExcept_bind memFrame fun _ _ => keeps_ofExcept_bind memFrame fun cdpOn _ =>
      keeps_failIf_bind memFrame fun _ => keeps_ofExcept_bind memFrame fun core _ =>
        Keeps.mapM memFrame fun k _ => ?_
    unfold l3caRead
    split_ifs
    · exact Keeps.bind memFrame msrRead_keeps fun _ => Keeps.bind memFrame msrRead_keeps fun _ =>
        Keeps.pure memFrame _
    · exact Keeps.bind memFrame msrRead_keeps fun _ => Keeps.pure memFrame _
  · obtain ⟨c, core, hc, hcore, rfl⟩ := hwL3caGet_ok h
    simp only [msrView, heldBy_ok (l3caGetCosNum_ok.2 ⟨c, hc, rfl⟩) hcore, msrRules_cdpOn hc,
      getElem?_range_map]
    split_ifs <;> rfl

theorem hwL2caGet_shows (l2id m : Nat) : Shows (msrView p) (Reads fun a (tab : List L2ca) =>
    ∀ k, tab[k]? = (a.l2 (l2id, k)).map (L2ca.mk k)) (hwL2caGet p l2id m) := by
  refine shows_reads ?_ fun s tab t h k => ?_
  · exact keeps_ofExcept_bind memFrame fun _ _ => keeps_failIf_bind memFrame fun _ =>
      keeps_ofExcept_bind memFrame fun core _ => Keeps.mapM memFrame fun k _ =>
        Keeps.bind memFrame msrRead_keeps fun _ => Keeps.pure memFrame _
  · obtain ⟨c, core, hc, hcore, rfl⟩ := hwL2caGet_ok h
    simp only [msrView, heldBy_ok (l2caGetCosNum_ok.2 ⟨c, hc, rfl⟩) hcore, getElem?_range_map]
    split_ifs <;> rfl

theorem hwMbaGet_shows (socket m : Nat) : Shows (msrView p) (Reads fun a (tab : List Mba) =>
    ∀ k, tab[k]? = (a.mba (socket, k)).map (Mba.mk k)) (hwMbaGet p socket m) := by
  refine shows_reads ?_ fun s tab t h k => ?_
  · exact keeps_ofExcept_bind memFrame fun _ _ => keeps_failIf_bind memFrame fun _ =>
      keeps_ofExcept_bind memFrame fun core _ => Keeps.mapM memFrame fun k _ =>
        Keeps.bind memFrame msrRead_keeps fun _ => Keeps.pure memFrame _
  · rcases hc : p.capGetType CapItem.mba? with err | c
    · unfold hwMbaGet Platform.mbaGetCosNum at h
      rw [hc] at h
      cases h
    · obtain ⟨core, hcore, -, rfl⟩ := hwMbaGet_ok hc h
      simp only [msrView, heldBy_ok (mbaGetCosNum_ok.2 ⟨c, hc, rfl⟩) hcore, getElem?_range_map]
      split_ifs <;> rfl

section Sets

variable (hfit : p.FitsBanks)
include hfit

theorem hwL3caSet_shows {socket : Nat} {ca : List L3ca} (hfits : MsrFits p (.l3caSet socket ca)) :
    Shows (msrView p) (SetsAll (Store.putL3 (msrRules p).cdpOn socket)
      (Store.halfL3 (msrRules p).cdpOn socket) ca fun _ => True) (hwL3caSet p socket ca) := by
  refine shows_ofExcept_bind SetsAll.mayFail fun n hn => shows_failIf_bind SetsAll.mayFail fun _ =>
    shows_ofExcept_bind SetsAll.mayFail fun cdpOn hon =>
      shows_ofExcept_bind SetsAll.mayFail fun core hcore => Shows.forM fun e he => ?_
  obtain ⟨c, hc, rfl⟩ := l3caCdpEnabled_ok.1 hon
  rw [msrRules_cdpOn hc]
  exact l3caWrite_shows hfit hc (hfits c hc e he) hcore

theorem hwL2caSet_shows (l2id : Nat) (ca : List L2ca) :
    Shows (msrView p) (SetsAll (Store.putL2 l2id) whole ca fun _ => True)
      (hwL2caSet p l2id ca) := by
  refine shows_ofExcept_bind SetsAll.mayFail fun n hn =>
    shows_failIf_bind SetsAll.mayFail fun hids =>
    shows_ofExcept_bind SetsAll.mayFail fun core hcore => Shows.forM_sets fun e he => ?_
  obtain ⟨c, hc, rfl⟩ := l2caGetCosNum_ok.1 hn
  exact l2caWrite_shows hfit hc (Nat.not_le.1 fun hle => hids ⟨e, he, hle⟩) hcore

theorem hwMbaSet_shows (socket : Nat) (requested : List Mba) (want : Bool) :
    Shows (msrView p) (SetsAll (Store.putMba (msrRules p).rate socket) whole requested fun actual =>
      actual = if want then some (requested.map fun r => ⟨r.classId, (msrRules p).rate r.mbRate⟩)
        else none) (hwMbaSet p socket requested want) := by
  refine shows_ofExcept_bind SetsAll.mayFail fun c hc => shows_failIf_bind SetsAll.mayFail fun _ =>
    shows_failIf_bind SetsAll.mayFail fun hids =>
      shows_ofExcept_bind SetsAll.mayFail fun core hcore => ?_
  have hlt : ∀ e ∈ requested, e.classId < c.numClasses :=
    fun e he => Nat.not_le.1 fun hle => hids ⟨e, he, hle⟩
  cases want
  · have hloop : Shows (msrView p) (SetsAll (Store.putMba (msrRules p).rate socket) whole requested
        fun _ => True) (requested.forM (mbaWrite p c core)) :=
      Shows.forM_sets fun e he => mbaWrite_shows hfit hc (hlt e he) hcore
    exact (hloop.map (f := fun _ => none)).mono fun _ _ _ h => SetsAll.wraps h fun _ _ => rfl
  · have hloop := Shows.mapM fun e he => mbaWriteActual_shows (e := e) hfit hc (hlt e he) hcore
    exact hloop.map.mono fun _ _ _ h => SetsAll.wraps h fun _ hb => congrArg some hb

theorem hwAllocAssocSet_shows (lcore classId : Nat) :
    Shows (msrView p) (Sets (Store.move classId [lcore])) (hwAllocAssocSet p lcore classId) := by
  refine shows_failIf_bind Sets.mayFail fun _ => shows_ofExcept_bind Sets.mayFail fun n3 h3 =>
    shows_ofExcept_bind Sets.mayFail fun n2 h2 => shows_failIf_bind Sets.mayFail fun hc =>
      cosAssocSet_shows hfit ?_
  have hl3 : n3 ≠ 0 → n3 ≤ 128 := by
    intro h0
    obtain ⟨c, hcap, rfl⟩ := l3caGetCosNum_ok.1 ((cosNumOrZero_ok h0).1 h3)
    have := hfit.l3 c hcap
    simp only [msrL3caMaskStart, msrL3caMaskEnd] at this
    split_ifs at this <;> omega
  have hl2 : n2 ≠ 0 → n2 ≤ 64 := by
    intro h0
    obtain ⟨c, hcap, rfl⟩ := l2caGetCosNum_ok.1 ((cosNumOrZero_ok h0).1 h2)
    exact hfit.l2 c hcap
  omega

omit hfit in
theorem hwAllocAssocGet_shows (lcore : Nat) :
    Shows (msrView p) (Reads fun a c => a.cos lcore = some c) (hwAllocAssocGet p lcore) := by
  refine shows_failIf_bind Reads.mayFail fun hcore => shows_failIf_bind Reads.mayFail fun _ =>
    shows_reads (Keeps.bind memFrame msrRead_keeps fun _ => Keeps.pure memFrame _) fun s c t h => ?_
  have hmem : lcore ∈ p.cpu.lcores := by
    rwa [CpuInfo.getCoreInfo_eq_none, not_not] at hcore
  exact (if_pos hmem).trans (congrArg some (cosAssocGet_ok h).1.symm)

omit hfit in
/-- The search reads the classes of the cores in its scope. -/
theorem getUnusedCos_shows {technology id : Nat} {l : List Nat}
    (hid : OnEntity p technology id l) :
    Shows (msrView p) (Reads fun a c => c < 2 ^ 32
      ∧ Store.Unused (fun k => ∃ core ∈ l, (msrRules p).near technology core k) c a)
      (getUnusedCos p id technology) := by
  refine shows_reads ?_ fun s c t h => ?_
  · exact keeps_ofExcept_bind memFrame fun _ _ => Keeps.bind memFrame
      (Keeps.mapM memFrame fun _ _ => Keeps.bind memFrame msrRead_keeps fun _ =>
        Keeps.pure memFrame _) fun _ => Keeps.ofOption memFrame _ _
  · obtain ⟨-, hi, hhi, h1, hle, hfree, -⟩ := getUnusedCos_ok h
    refine ⟨(getHiCosId_below hhi hle).2, Nat.pos_iff_ne_zero.1 h1, ?_, fun t => nofun⟩
    rintro k ⟨core, hcore, ca, hca, ck, hck, rfl, rfl, hnear⟩ hcos
    obtain ⟨ca', ⟨hca', hscope⟩, hsame⟩ := hid _ hcore
    obtain rfl : ca' = ca := List.inj_on_of_nodup_map p.cpu.nodup hca' hca hsame
    refine hfree ck ⟨hck, hnear.trans hscope⟩ ?_
    have hmem : ck.lcore ∈ p.cpu.lcores := List.mem_map_of_mem hck
    exact Option.some.inj ((if_pos hmem).symm.trans hcos)

theorem hwAllocAssign_shows (technology : Nat) (l : List Nat) :
    Shows (msrView p)
      (Assigns (Store.Unused fun k => ∃ core ∈ l, (msrRules p).near technology core k) Store.move l)
      (hwAllocAssign p technology l) := by
  refine shows_ofExcept_bind Assigns.mayFail fun r hr => ?_
  have hid : OnEntity p technology (r.getD 0) l := by
    rcases l with _ | ⟨core, l⟩
    · exact fun core hcore => absurd hcore List.not_mem_nil
    · obtain ⟨id, rfl, hid⟩ := oneEntity_none.1 hr
      exact hid
  refine Shows.bind_of_reads Assigns.mayFail (getUnusedCos_shows hid) fun c s ⟨hc, hunused⟩ => ?_
  exact Assigns.of_forM hunused (fun l a => Store.foldl_move l a)
    (Shows.forM_sets fun core _ => cosAssocSet_shows hfit hc)

theorem hwAllocRelease_shows (l : List Nat) :
    Shows (msrView p) (SetsSome (fun core => Store.move 0 [core]) l) (hwAllocRelease p l) :=
  Shows.tryAll fun _ _ => cosAssocSet_shows hfit (by decide)

/-- The registers keep a store, whatever accesses the machine refuses. -/
theorem hwPidBackend_keeping : Keeping (hwPidBackend p) (msrView p) (msrRules p) (MsrFits p) where
  l3caSet _ _ hfits := hwL3caSet_shows hfit hfits
  l3caGet := hwL3caGet_shows
  l2caSet l2id ca _ := hwL2caSet_shows hfit l2id ca
  l2caGet := hwL2caGet_shows
  mbaSet socket requested want _ _ := hwMbaSet_shows hfit socket requested want
  mbaGet := hwMbaGet_shows
  assocSet lcore classId _ := hwAllocAssocSet_shows hfit lcore classId
  assocGet := hwAllocAssocGet_shows
  assign technology l _ := hwAllocAssign_shows hfit technology l
  release l _ := hwAllocRelease_shows hfit l
  assocSetPid _ _ _ := shows_throw Sets.mayFail _
  assocGetPid _ := shows_throw Reads.mayFail _
  assignPid _ _ _ := shows_throw Assigns.mayFail _
  releasePid _ _ := shows_throw SetsAll.mayFail _
  pidAssoc _ := shows_throw Reads.mayFail _

end Sets

/-! ## Histories -/

/-- The machine of `cdpPlatform`, but for writes of one register, which it refuses. -/
def refusingPlatform : Platform :=
  { cdpPlatform with fails := fun _ a => match a with
      | .wr _ reg _ => decide (reg = 0xC95)
      | .rd _ _ => false }

end Pqos
