import Pqos.Proofs.Tables

/-!
# Setting and getting cache classes

What the getter reports after the setter is the old table with each class the request names
replaced by its last entry for it, and on other sockets or clusters the old table as it is.
-/

namespace Pqos

open Prog Table

variable {p : Platform} {core : Nat}

/-! ## L3 registers -/

section Reg

variable {c : CapL3ca} (hfit : p.FitsBanks) (hc : p.capGetType CapItem.l3ca? = .ok c) {k k' : Nat}
  (hk : k < c.numClasses) (hk' : k' < c.numClasses)
include hfit hc hk hk'

theorem l3caReg_inj (h : l3caReg c.cdpOn k = l3caReg c.cdpOn k') : k = k' := by
  have := hfit.l3 c hc
  simp only [l3caReg, msrL3caMaskStart, msrL3caMaskEnd] at h this
  split_ifs at h this <;> omega

theorem codeReg_inj (hon : c.cdpOn = true)
    (h : (l3caReg true k + 1) % 2 ^ 32 = (l3caReg true k' + 1) % 2 ^ 32) : k = k' := by
  have := hfit.l3 c hc
  simp only [l3caReg, msrL3caMaskStart, msrL3caMaskEnd, hon, if_true] at h this
  omega

omit hfit hc hk hk' in
theorem codeReg_ne (k k' : Nat) : (l3caReg true k + 1) % 2 ^ 32 ≠ l3caReg true k' := by
  simp only [l3caReg, msrL3caMaskStart, if_true]
  omega

theorem l3caPuts_dataReg {e : L3ca} (he : e.classId = k') :
    l3caPuts c.cdpOn e (l3caReg c.cdpOn k) = if e.classId = k then some e.u.dataMask else none := by
  have hinj := l3caReg_inj hfit hc hk hk'
  have hne := codeReg_ne k' k
  subst he
  unfold l3caPuts
  have hiff : l3caReg c.cdpOn k = l3caReg c.cdpOn e.classId ↔ e.classId = k :=
    ⟨fun h => (hinj h).symm, fun h => by rw [h]⟩
  rcases hon : c.cdpOn with _ | _ <;> rw [hon] at hiff
  · simp only [Bool.false_eq_true, if_false, hiff]
  · rw [if_pos rfl, if_neg hne.symm]
    simp only [hiff]

theorem l3caPuts_codeReg (hon : c.cdpOn = true) {e : L3ca} (he : e.classId = k') :
    l3caPuts c.cdpOn e ((l3caReg true k + 1) % 2 ^ 32)
      = if e.classId = k then some e.u.codeMask else none := by
  have hinj := codeReg_inj hfit hc hk hk' hon
  have hne := codeReg_ne k k'
  subst he
  unfold l3caPuts
  rw [hon, if_pos rfl, if_neg hne]
  by_cases hke : e.classId = k
  · rw [hke, if_pos rfl, if_pos rfl]
  · rw [if_neg fun h => hke (hinj h).symm, if_neg hke]

omit hk' in
theorem l3caReg_bank :
    msrL3caMaskStart ≤ l3caReg c.cdpOn k ∧ l3caReg c.cdpOn k ≤ msrL3caMaskEnd := by
  have := hfit.l3 c hc
  simp only [l3caReg, msrL3caMaskStart, msrL3caMaskEnd] at this ⊢
  split_ifs at this ⊢ <;> omega

omit hk' in
theorem codeReg_bank (hon : c.cdpOn = true) : msrL3caMaskStart ≤ (l3caReg true k + 1) % 2 ^ 32
    ∧ (l3caReg true k + 1) % 2 ^ 32 ≤ msrL3caMaskEnd := by
  have := hfit.l3 c hc
  simp only [l3caReg, msrL3caMaskStart, msrL3caMaskEnd, hon, if_true] at this ⊢
  omega

end Reg

/-! ## L3 -/

/-- The entry of class `k` as the registers `core` sees spell it. -/
def l3View (p : Platform) (cdpOn : Bool) (core : Nat) (s : Msr) (k : Nat) : L3ca :=
  ⟨k, if cdpOn then .s (s.read p.cpu core (l3caReg true k))
      (s.read p.cpu core ((l3caReg true k + 1) % 2 ^ 32))
    else .ways (s.read p.cpu core (l3caReg false k))⟩

/-- An entry as it reads back: under CDP always as two masks. -/
def L3ca.readBack (cdpOn : Bool) (e : L3ca) : L3ca :=
  ⟨e.classId, if cdpOn then .s e.u.dataMask e.u.codeMask else .ways e.u.dataMask⟩

section L3

variable {c : CapL3ca} {socket : Nat} {ca : List L3ca} {s t u : Msr}

theorem l3caRead_ok {cdpOn : Bool} {k : Nat} {e : L3ca}
    (h : (l3caRead p cdpOn core k).run s = .ok e t) :
    e = l3View p cdpOn core s k ∧ t.mem = s.mem := by
  unfold l3caRead at h
  cases cdpOn
  · rw [if_neg (by simp), bind_ok] at h
    obtain ⟨v, s', hr, hv⟩ := h
    obtain ⟨rfl, rfl⟩ := msrRead_ok hr
    cases hv
    exact ⟨rfl, rfl⟩
  · rw [if_pos rfl, bind_ok] at h
    obtain ⟨v, s', hd, h⟩ := h
    obtain ⟨rfl, rfl⟩ := msrRead_ok hd
    rw [bind_ok] at h
    obtain ⟨v, s', hr, hv⟩ := h
    obtain ⟨rfl, rfl⟩ := msrRead_ok hr
    cases hv
    exact ⟨rfl, rfl⟩

theorem hwL3caGet_ok {m : Nat} {tab : List L3ca}
    (h : (hwL3caGet p socket m).run s = .ok tab t) :
    ∃ c core, p.capGetType CapItem.l3ca? = .ok c ∧ p.cpu.getOneCore socket = .ok core
      ∧ tab = (List.range c.numClasses).map (l3View p c.cdpOn core s) := by
  unfold hwL3caGet at h
  simp only [bind_ok, ofExcept_ok, failIf_ok] at h
  obtain ⟨n, _, ⟨hn, rfl⟩, cdpOn, _, ⟨hon, rfl⟩, _, _, ⟨-, rfl⟩, core, _, ⟨hcore, rfl⟩, h⟩ := h
  obtain ⟨c, hc, rfl⟩ := l3caGetCosNum_ok.1 hn
  obtain ⟨c', hc', rfl⟩ := l3caCdpEnabled_ok.1 hon
  rw [hc] at hc'
  cases hc'
  obtain ⟨rfl, -⟩ := mapM_ok_of_reads (g := l3caRead p c.cdpOn core) Msr.mem
    (fun m k => l3View p c.cdpOn core ⟨m, []⟩ k) (fun k s e t h => by
      obtain ⟨he, ht⟩ := l3caRead_ok h
      exact ⟨he, ht⟩) h
  exact ⟨c, core, hc, hcore, rfl⟩

/-- A table that was filled has room for every class. -/
theorem hwL3caGet_fits {m : Nat} {tab : List L3ca} (hc : p.capGetType CapItem.l3ca? = .ok c)
    (h : (hwL3caGet p socket m).run s = .ok tab t) : c.numClasses ≤ m := by
  unfold hwL3caGet at h
  simp only [bind_ok, ofExcept_ok, failIf_ok] at h
  obtain ⟨n, _, ⟨hn, rfl⟩, _, _, _, _, _, ⟨hm, -⟩, -⟩ := h
  obtain ⟨c', hc', rfl⟩ := l3caGetCosNum_ok.1 hn
  cases hc.symm.trans hc'
  exact Nat.not_lt.1 hm

theorem hwL3caGet_run (hp : p.Reliable) (hc : p.capGetType CapItem.l3ca? = .ok c)
    (hcore : p.cpu.getOneCore socket = .ok core) {m : Nat} (hm : c.numClasses ≤ m) (s : Msr) :
    ∃ tab t, (hwL3caGet p socket m).run s = .ok tab t := by
  have hread : ∀ reg, Total (msrRead p core reg) :=
    fun reg s => ⟨_, _, msrRead_run hp (CpuInfo.getOneCore_mem hcore)⟩
  have htotal : Total ((List.range c.numClasses).mapM (l3caRead p c.cdpOn core)) := by
    refine Total.mapM fun k _ => ?_
    unfold l3caRead
    split_ifs
    · exact Total.bind (hread _) fun _ => Total.bind (hread _) fun _ => Total.pure _
    · exact Total.bind (hread _) fun _ => Total.pure _
  obtain ⟨tab, t, h⟩ := htotal s
  refine ⟨tab, t, ?_⟩
  unfold hwL3caGet
  rw [bind_of_ok (ofExcept_ok.2 ⟨l3caGetCosNum_ok.2 ⟨c, hc, rfl⟩, rfl⟩),
    bind_of_ok (ofExcept_ok.2 ⟨l3caCdpEnabled_ok.2 ⟨c, hc, rfl⟩, rfl⟩),
    bind_of_ok (a := ()) (failIf_ok.2 ⟨Nat.not_lt.2 hm, rfl⟩),
    bind_of_ok (ofExcept_ok.2 ⟨hcore, rfl⟩)]
  exact h

theorem hwL3caSet_ok (h : (hwL3caSet p socket ca).run s = .ok () t) :
    ∃ c core, L3Ready p socket ca c core ∧ (∀ e ∈ ca, c.cdpOn = true ∨ e.cdp = false)
      ∧ Stores p core (fun r => (ca.filterMap (l3caPuts c.cdpOn · r)).getLast?) s t := by
  rcases l3Ready_or_rejects p socket ca with ⟨c, core, hready⟩ | ⟨e, hrej⟩
  · rw [hready.run] at h
    refine ⟨c, core, hready, ?_, Stores.forM (fun e _ s t h => (l3caWrite_stores h).1) h⟩
    refine forM_ok (fun l _ => ∀ e ∈ l, c.cdpOn = true ∨ e.cdp = false) h (by simp) ?_
    intro pre e post s t _ hpre he a ha
    rcases List.mem_append.1 ha with ha | ha
    · exact hpre a ha
    · rw [List.mem_singleton.1 ha]
      exact (l3caWrite_stores he).2
  · rw [hrej] at h
    cases h

/-- How the view of a class changes: it becomes that of the last entry naming it. -/
theorem l3View_of_stores (hfit : p.FitsBanks) (hc : p.capGetType CapItem.l3ca? = .ok c)
    (hids : ∀ e ∈ ca, e.classId < c.numClasses)
    (h : Stores p core (fun r => (ca.filterMap (l3caPuts c.cdpOn · r)).getLast?) s t)
    {k : Nat} (hk : k < c.numClasses) :
    l3View p c.cdpOn core t k
      = ((lastNamed L3ca.classId k ca).map (L3ca.readBack c.cdpOn)).getD
        (l3View p c.cdpOn core s k) := by
  have hdata := h.read (l3caReg c.cdpOn k)
  rw [getLast?_filterMap L3ca.classId k fun e => e.u.dataMask] at hdata
  · unfold l3View
    cases hon : c.cdpOn
    · rw [hon] at hdata
      rw [if_neg (by simp), if_neg (by simp), hdata]
      rcases hlast : lastNamed L3ca.classId k ca with _ | e
      · rfl
      · simp [L3ca.readBack, (lastNamed_mem _ _ hlast).2]
    · have hcode := h.read ((l3caReg true k + 1) % 2 ^ 32)
      rw [getLast?_filterMap L3ca.classId k fun e => e.u.codeMask] at hcode
      · rw [hon] at hdata
        rw [if_pos rfl, if_pos rfl, hdata, hcode]
        rcases hlast : lastNamed L3ca.classId k ca with _ | e
        · rfl
        · simp [L3ca.readBack, (lastNamed_mem _ _ hlast).2]
      · exact fun e he => l3caPuts_codeReg hfit hc hk (hids e he) hon rfl
  · exact fun e he => l3caPuts_dataReg hfit hc hk (hids e he) rfl

/-- A request on one socket leaves the view from a core of another as it was. -/
theorem l3View_other (hfit : p.FitsBanks) (hc : p.capGetType CapItem.l3ca? = .ok c)
    (hids : ∀ e ∈ ca, e.classId < c.numClasses) {socket' core' : Nat} (hne : socket' ≠ socket)
    (hcore : p.cpu.getOneCore socket = .ok core) (hcore' : p.cpu.getOneCore socket' = .ok core')
    (h : Stores p core (fun r => (ca.filterMap (l3caPuts c.cdpOn · r)).getLast?) s t)
    {k : Nat} (hk : k < c.numClasses) :
    l3View p c.cdpOn core' t k = l3View p c.cdpOn core' s k := by
  obtain ⟨a, ha, rfl, hsock⟩ := CpuInfo.getOneCore_ok hcore
  obtain ⟨a', ha', rfl, hsock'⟩ := CpuInfo.getOneCore_ok hcore'
  have hbank : ∀ r v, (ca.filterMap (l3caPuts c.cdpOn · r)).getLast? = some v →
      msrL3caMaskStart ≤ r ∧ r ≤ msrL3caMaskEnd := by
    intro r v hv
    obtain ⟨e, he, hput⟩ := List.mem_filterMap.1 (List.mem_of_getLast? hv)
    have hreg := l3caReg_bank hfit hc (hids e he)
    have hcode := codeReg_bank hfit hc (hids e he)
    unfold l3caPuts at hput
    split_ifs at hput with hon h1 h2 h2
    · rw [h1]
      exact hcode hon
    · rw [h2, ← hon]
      exact hreg
    · rw [h2, ← show c.cdpOn = false by simpa using hon]
      exact hreg
  have hread : ∀ r, msrL3caMaskStart ≤ r ∧ r ≤ msrL3caMaskEnd →
      t.read p.cpu a'.lcore r = s.read p.cpu a'.lcore r := by
    intro r hr
    unfold Msr.read
    refine h.frame _ fun r' v hv => ?_
    rw [CpuInfo.loc_socket ha' (Or.inl hr), CpuInfo.loc_socket ha (Or.inl (hbank r' v hv)),
      hsock, hsock']
    exact fun he => hne (Loc.socket.inj he).1
  have hreg := l3caReg_bank hfit hc hk
  unfold l3View
  cases hon : c.cdpOn
  · rw [hon] at hreg
    rw [if_neg (by simp), if_neg (by simp), hread _ hreg]
  · rw [hon] at hreg
    rw [if_pos rfl, if_pos rfl, hread _ hreg, hread _ (codeReg_bank hfit hc hk hon)]

theorem hwL3ca_roundTrip (hfit : p.FitsBanks) (hc : p.capGetType CapItem.l3ca? = .ok c)
    (hids : ∀ e ∈ ca, e.classId < c.numClasses) (h : (hwL3caSet p socket ca).run s = .ok () t)
    {m socket' : Nat} {tab₀ tab : List L3ca} {s' t' : Msr}
    (h₀ : (hwL3caGet p socket' m).run s = .ok tab₀ s')
    (h₁ : (hwL3caGet p socket' m).run t = .ok tab t') :
    tab = if socket' = socket then updated L3ca.classId (L3ca.readBack c.cdpOn) ca tab₀
      else tab₀ := by
  obtain ⟨c', core, hready, -, hstores⟩ := hwL3caSet_ok h
  obtain rfl : c' = c := Except.ok.inj (hready.cap.symm.trans hc)
  obtain ⟨c₀, core', hc₀, hcore', rfl⟩ := hwL3caGet_ok h₀
  obtain rfl : c₀ = c' := Except.ok.inj (hc₀.symm.trans hc)
  obtain ⟨c₁, core₁, hc₁, hcore₁, rfl⟩ := hwL3caGet_ok h₁
  obtain rfl : c₁ = c₀ := Except.ok.inj (hc₁.symm.trans hc)
  obtain rfl : core₁ = core' := Except.ok.inj (hcore₁.symm.trans hcore')
  split_ifs with hsock
  · obtain rfl : core₁ = core := Except.ok.inj (hcore₁.symm.trans (hsock ▸ hready.core))
    rw [updated, List.map_map]
    refine List.map_congr_left fun k hk => ?_
    exact l3View_of_stores hfit hc hids hstores (List.mem_range.1 hk)
  · refine List.map_congr_left fun k hk => ?_
    exact l3View_other hfit hc hids hsock hready.core hcore' hstores (List.mem_range.1 hk)

end L3

/-! ## L2 -/

section L2

variable {c : CapL2ca} {l2id : Nat} {ca : List L2ca} {s t : Msr}

/-- The entry of class `k` as the registers `core` sees spell it. -/
def l2View (p : Platform) (core : Nat) (s : Msr) (k : Nat) : L2ca :=
  ⟨k, (s.read p.cpu core (l2caReg k)).setWidth 32⟩

/-- What an L2 entry puts in the register `r`. -/
def l2caPuts (e : L2ca) (r : Nat) : Option Word :=
  if r = l2caReg e.classId then some (e.waysMask.setWidth 64) else none

theorem hwL2caGet_ok {m : Nat} {tab : List L2ca} (h : (hwL2caGet p l2id m).run s = .ok tab t) :
    ∃ c core, p.capGetType CapItem.l2ca? = .ok c ∧ p.cpu.getOneByL2id l2id = .ok core
      ∧ tab = (List.range c.numClasses).map (l2View p core s) := by
  unfold hwL2caGet at h
  simp only [bind_ok, ofExcept_ok, failIf_ok] at h
  obtain ⟨n, _, ⟨hn, rfl⟩, _, _, ⟨-, rfl⟩, core, _, ⟨hcore, rfl⟩, h⟩ := h
  obtain ⟨c, hc, rfl⟩ := l2caGetCosNum_ok.1 hn
  obtain ⟨rfl, -⟩ := mapM_ok_of_reads (g := l2caRead p core) Msr.mem
    (fun m k => l2View p core ⟨m, []⟩ k) (fun k s e t h => by
      unfold l2caRead at h
      rw [bind_ok] at h
      obtain ⟨v, s', hr, hv⟩ := h
      obtain ⟨rfl, rfl⟩ := msrRead_ok hr
      cases hv
      exact ⟨rfl, rfl⟩) h
  exact ⟨c, core, hc, hcore, rfl⟩

theorem hwL2caGet_run (hp : p.Reliable) (hc : p.capGetType CapItem.l2ca? = .ok c)
    (hcore : p.cpu.getOneByL2id l2id = .ok core) {m : Nat} (hm : c.numClasses ≤ m) (s : Msr) :
    ∃ tab t, (hwL2caGet p l2id m).run s = .ok tab t := by
  have htotal : Total ((List.range c.numClasses).mapM (l2caRead p core)) :=
    Total.mapM fun k _ => Total.bind
      (fun s => ⟨_, _, msrRead_run hp (CpuInfo.getOneByL2id_mem hcore)⟩) fun _ => Total.pure _
  obtain ⟨tab, t, h⟩ := htotal s
  refine ⟨tab, t, ?_⟩
  unfold hwL2caGet
  rw [bind_of_ok (ofExcept_ok.2 ⟨l2caGetCosNum_ok.2 ⟨c, hc, rfl⟩, rfl⟩),
    bind_of_ok (a := ()) (failIf_ok.2 ⟨Nat.not_lt.2 hm, rfl⟩),
    bind_of_ok (ofExcept_ok.2 ⟨hcore, rfl⟩)]
  exact h

theorem hwL2caSet_ok (h : (hwL2caSet p l2id ca).run s = .ok () t) :
    ∃ c core, p.capGetType CapItem.l2ca? = .ok c ∧ (∀ e ∈ ca, e.classId < c.numClasses)
      ∧ p.cpu.getOneByL2id l2id = .ok core
      ∧ Stores p core (fun r => (ca.filterMap (l2caPuts · r)).getLast?) s t := by
  unfold hwL2caSet at h
  simp only [bind_ok, ofExcept_ok, failIf_ok] at h
  obtain ⟨n, _, ⟨hn, rfl⟩, _, _, ⟨hids, rfl⟩, core, _, ⟨hcore, rfl⟩, h⟩ := h
  obtain ⟨c, hc, rfl⟩ := l2caGetCosNum_ok.1 hn
  refine ⟨c, core, hc, fun e he => Nat.not_le.1 fun hle => hids ⟨e, he, hle⟩, hcore, ?_⟩
  exact Stores.forM (fun e _ s t h => msrWrite_stores h) h

theorem hwL2ca_roundTrip (hfit : p.FitsBanks) (h : (hwL2caSet p l2id ca).run s = .ok () t)
    {m l2id' : Nat} {tab₀ tab : List L2ca} {s' t' : Msr}
    (h₀ : (hwL2caGet p l2id' m).run s = .ok tab₀ s')
    (h₁ : (hwL2caGet p l2id' m).run t = .ok tab t') :
    tab = if l2id' = l2id then updated L2ca.classId id ca tab₀ else tab₀ := by
  obtain ⟨c, core, hc, hids, hcore, hstores⟩ := hwL2caSet_ok h
  obtain ⟨c₀, core', hc₀, hcore', rfl⟩ := hwL2caGet_ok h₀
  obtain rfl : c₀ = c := Except.ok.inj (hc₀.symm.trans hc)
  obtain ⟨c₁, core₁, hc₁, hcore₁, rfl⟩ := hwL2caGet_ok h₁
  obtain rfl : c₁ = c₀ := Except.ok.inj (hc₁.symm.trans hc)
  obtain rfl : core₁ = core' := Except.ok.inj (hcore₁.symm.trans hcore')
  have hcount := hfit.l2 c₁ hc
  simp only [msrMbaMaskStart, msrL2caMaskStart] at hcount
  split_ifs with hid
  · obtain rfl : core₁ = core := Except.ok.inj (hcore₁.symm.trans (hid ▸ hcore))
    rw [updated, List.map_map]
    refine List.map_congr_left fun k hk => ?_
    rw [List.mem_range] at hk
    have hread := hstores.read (l2caReg k)
    rw [getLast?_filterMap L2ca.classId k fun e => e.waysMask.setWidth 64] at hread
    · simp only [l2View, Function.comp_apply, hread, Option.map_id, id]
      rcases hlast : lastNamed L2ca.classId k ca with _ | e
      · rfl
      · obtain ⟨-, rfl⟩ := lastNamed_mem _ _ hlast
        simp
    · intro e he
      have hinj : l2caReg k = l2caReg e.classId ↔ e.classId = k := by
        have := hids e he
        simp only [l2caReg, msrL2caMaskStart]
        omega
      simp [l2caPuts, hinj]
  · refine List.map_congr_left fun k hk => ?_
    rw [List.mem_range] at hk
    obtain ⟨a, ha, rfl, hcl⟩ := CpuInfo.getOneByL2id_ok hcore
    obtain ⟨a', ha', rfl, hcl'⟩ := CpuInfo.getOneByL2id_ok hcore'
    have hbank : ∀ j, j < c₁.numClasses → msrL2caMaskStart ≤ l2caReg j
        ∧ l2caReg j < msrMbaMaskStart := by
      intro j hj
      simp only [l2caReg, msrL2caMaskStart, msrMbaMaskStart]
      omega
    unfold l2View Msr.read
    rw [hstores.frame]
    intro r v hv
    obtain ⟨e, he, hput⟩ := List.mem_filterMap.1 (List.mem_of_getLast? hv)
    unfold l2caPuts at hput
    split_ifs at hput with hr
    rw [hr, CpuInfo.loc_cluster ha' (hbank k hk).1 (hbank k hk).2,
      CpuInfo.loc_cluster ha (hbank _ (hids e he)).1 (hbank _ (hids e he)).2, hcl, hcl']
    exact fun he => hid (Loc.cluster.inj he).1

end L2

/-! ## Both -/

/-- After a set, a get on the same id returns the old table updated by the request, and a get
elsewhere the old table; and a get with room for every class does return. -/
theorem hwCa_roundTrip (hfit : p.FitsBanks) :
    (∀ c socket ca s t, p.capGetType CapItem.l3ca? = .ok c →
      (∀ e ∈ ca, e.classId < c.numClasses) → (hwL3caSet p socket ca).run s = .ok () t →
      ∀ socket' m,
        (∀ tab₀ s' tab t', (hwL3caGet p socket' m).run s = .ok tab₀ s' →
          (hwL3caGet p socket' m).run t = .ok tab t' →
          tab = if socket' = socket then updated L3ca.classId (L3ca.readBack c.cdpOn) ca tab₀
            else tab₀)
        ∧ (p.Reliable → c.numClasses ≤ m → ∀ core, p.cpu.getOneCore socket' = .ok core →
          ∀ s, ∃ tab s', (hwL3caGet p socket' m).run s = .ok tab s'))
    ∧ ∀ c l2id ca s t, p.capGetType CapItem.l2ca? = .ok c →
      (∀ e ∈ ca, e.classId < c.numClasses) → (hwL2caSet p l2id ca).run s = .ok () t →
      ∀ l2id' m,
        (∀ tab₀ s' tab t', (hwL2caGet p l2id' m).run s = .ok tab₀ s' →
          (hwL2caGet p l2id' m).run t = .ok tab t' →
          tab = if l2id' = l2id then updated L2ca.classId id ca tab₀ else tab₀)
        ∧ (p.Reliable → c.numClasses ≤ m → ∀ core, p.cpu.getOneByL2id l2id' = .ok core →
          ∀ s, ∃ tab s', (hwL2caGet p l2id' m).run s = .ok tab s') := by
  refine ⟨fun c socket ca s t hc hids h socket' m => ⟨fun tab₀ s' tab t' h₀ h₁ => ?_, ?_⟩,
    fun c l2id ca s t hc hids h l2id' m => ⟨fun tab₀ s' tab t' h₀ h₁ => ?_, ?_⟩⟩
  · exact hwL3ca_roundTrip hfit hc hids h h₀ h₁
  · exact fun hp hm core hcore => hwL3caGet_run hp hc hcore hm
  · exact hwL2ca_roundTrip hfit h h₀ h₁
  · exact fun hp hm core hcore => hwL2caGet_run hp hc hcore hm

def cdpPlatform : Platform :=
  smallPlatform [⟨true, .l3ca ⟨3, 11, 0, true, true⟩⟩, ⟨true, .l2ca ⟨2, 8, 0⟩⟩]

theorem cdpPlatform_fitsBanks : cdpPlatform.FitsBanks := by
  refine ⟨fun c h => ?_, fun c h => ?_, fun c h => ?_⟩ <;> cases h <;> decide

/-- Class 1 reads back as its last entry, a plain mask as both masks, class 0 as it was. -/
theorem hwCa_roundTrip_cdp :
    ([⟨0, .s 0 0⟩, ⟨1, .s 7 1⟩, ⟨2, .s 6 6⟩] : List L3ca)
        = updated L3ca.classId (L3ca.readBack true) [⟨1, .ways 3⟩, ⟨2, .ways 6⟩, ⟨1, .s 7 1⟩]
          [⟨0, .s 0 0⟩, ⟨1, .s 0 0⟩, ⟨2, .s 0 0⟩]
      ∧ ([⟨0, 0⟩, ⟨1, 5⟩] : List L2ca)
        = updated L2ca.classId id [⟨1, 3⟩, ⟨1, 5⟩] [⟨0, 0⟩, ⟨1, 0⟩] := by
  have h := hwCa_roundTrip cdpPlatform_fitsBanks
  refine ⟨?_, ?_⟩
  · exact (h.1 ⟨3, 11, 0, true, true⟩ 0 [⟨1, .ways 3⟩, ⟨2, .ways 6⟩, ⟨1, .s 7 1⟩]
      ⟨fun _ => 0, []⟩ _ rfl (by decide) rfl 0 3).1 _ _ _ _ rfl rfl
  · exact (h.2 ⟨2, 8, 0⟩ 0 [⟨1, 3⟩, ⟨1, 5⟩] ⟨fun _ => 0, []⟩ _ rfl (by decide) rfl 0 2).1 _ _ _ _
      rfl rfl

end Pqos
