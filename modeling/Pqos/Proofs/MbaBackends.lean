import Pqos.Proofs.RoundTrip
import Pqos.Proofs.SchemataFiles

/-!
# The two MBA back ends

Both round a rate to a multiple of the step. The MSR back end then stores what is left of 100, in
unsigned arithmetic and clamped to the largest delay, and the OS back end the rate itself. They
agree as long as the rounded rate does not pass 100.
-/

namespace Pqos

open Prog Table

/-- A linear capability as discovery builds it, with a step of at least one and at most 99. -/
structure CapMba.Linear (c : CapMba) : Prop where
  linear : c.isLinear = true
  step : 0 < c.throttleStep
  max : 0 < c.throttleMax
  sum : c.throttleMax + c.throttleStep = 100
  classes : c.numClasses ≤ 2 ^ 16

theorem discoverAllocMba_linear {eax ecx edx : BitVec 32} {c : CapMba}
    (h : discoverAllocMba eax ecx edx = .ok c) (hmax : c.throttleMax < 100) : c.Linear := by
  unfold discoverAllocMba at h
  split_ifs at h
  cases h
  have hedx : (edx &&& 0xffff#32).toNat < 2 ^ 16 := by
    rw [BitVec.toNat_and]
    exact Nat.and_lt_two_pow _ (by decide)
  constructor
  case linear => rfl
  case max => exact Nat.succ_pos _
  all_goals
    dsimp only at hmax ⊢
    omega

/-! ## Rounding -/

section Round

variable {step rate rate' : Nat}

theorem mbaRound_eq (hstep : step < 100) (hrate : rate ≤ 100) :
    mbaRound step rate = (rate + step / 2) / step * step := by
  have hle : (rate + step / 2) / step * step ≤ rate + step / 2 := Nat.div_mul_le_self _ _
  unfold mbaRound
  rw [Nat.mod_eq_of_lt (by omega : rate + step / 2 < 2 ^ 32), Nat.mod_eq_of_lt (by omega)]

theorem mbaRound_mono (hstep : step < 100) (hrate : rate' ≤ 100) (h : rate ≤ rate') :
    mbaRound step rate ≤ mbaRound step rate' := by
  rw [mbaRound_eq hstep (by omega), mbaRound_eq hstep hrate]
  exact Nat.mul_le_mul_right step (Nat.div_le_div_right (by omega))

/-- The rounded rate is within half a step of the rate. -/
theorem mbaRound_near (hpos : 0 < step) (hstep : step < 100) (hrate : rate ≤ 100) :
    2 * mbaRound step rate ≤ 2 * rate + step ∧ 2 * rate ≤ 2 * mbaRound step rate + step := by
  have hdiv := Nat.div_add_mod' (rate + step / 2) step
  have hmod := Nat.mod_lt (rate + step / 2) hpos
  rw [mbaRound_eq hstep hrate]
  omega

/-- A rounded rate below the step is zero, and the rate was below the step. -/
theorem mbaRound_lt_step (hpos : 0 < step) (hstep : step < 100) (hrate : rate ≤ 100)
    (h : mbaRound step rate < step) : mbaRound step rate = 0 ∧ rate < step := by
  rw [mbaRound_eq hstep hrate] at h ⊢
  have hq : (rate + step / 2) / step = 0 := by
    by_contra hne
    have := Nat.le_mul_of_pos_left step (Nat.pos_of_ne_zero hne)
    omega
  have := (Nat.div_eq_zero_iff_lt hpos).1 hq
  exact ⟨by rw [hq, Nat.zero_mul], by omega⟩

end Round

/-- The rate that the MSR back end reports for a requested one. -/
def hwMbaRate (c : CapMba) (rate : Nat) : Nat := mbaRateOf (BitVec.ofNat 64 (mbaDelay c rate))

section Rates

variable {c : CapMba} (hc : c.Linear) {rate rate' : Nat} (hrate : rate ≤ 100)
include hc

theorem hwMbaRate_eq : hwMbaRate c rate = 100 - mbaDelay c rate := by
  have hle : mbaDelay c rate ≤ 100 := by
    have := hc.sum
    have : mbaDelay c rate ≤ c.throttleMax := Nat.min_le_right _ _
    omega
  have hsub : BitVec.ofNat 64 (mbaDelay c rate) ≤ 100#64 := by
    rw [BitVec.le_def, BitVec.toNat_ofNat, BitVec.toNat_ofNat]
    omega
  unfold hwMbaRate mbaRateOf
  rw [BitVec.toNat_sub_of_le hsub, BitVec.toNat_ofNat, BitVec.toNat_ofNat]
  omega

include hrate

/-- Up to 100 both report the rounded rate, raised to the step. -/
theorem hwMbaRate_eq_osMbaRate (h : mbaRound c.throttleStep rate ≤ 100) :
    hwMbaRate c rate = osMbaRate c.throttleStep rate := by
  have hsum := hc.sum
  have hmax := hc.max
  rw [hwMbaRate_eq hc, mbaDelay, osMbaRate]
  by_cases hlt : mbaRound c.throttleStep rate < c.throttleStep
  · have hzero := (mbaRound_lt_step hc.step (by omega) hrate hlt).1
    rw [hzero, if_pos rfl]
    omega
  · have hne : mbaRound c.throttleStep rate ≠ 0 := by
      have := hc.step
      omega
    rw [if_neg hne]
    omega

theorem osMbaRate_bounds (h : mbaRound c.throttleStep rate ≤ 100) :
    c.throttleStep ≤ osMbaRate c.throttleStep rate ∧ osMbaRate c.throttleStep rate ≤ 100 := by
  have hsum := hc.sum
  unfold osMbaRate
  split_ifs with hzero
  · omega
  · have : ¬ mbaRound c.throttleStep rate < c.throttleStep := fun hlt =>
      hzero (mbaRound_lt_step hc.step (by have := hc.max; omega) hrate hlt).1
    omega

/-- The rate is within half a step of the requested one, or it is the step and the requested rate
was below it. -/
theorem osMbaRate_near :
    2 * osMbaRate c.throttleStep rate ≤ 2 * rate + c.throttleStep
        ∧ 2 * rate ≤ 2 * osMbaRate c.throttleStep rate + c.throttleStep
      ∨ osMbaRate c.throttleStep rate = c.throttleStep ∧ rate < c.throttleStep := by
  have hstep : c.throttleStep < 100 := by
    have := hc.sum
    have := hc.max
    omega
  unfold osMbaRate
  split_ifs with hzero
  · have hlt := mbaRound_lt_step hc.step hstep hrate (by rw [hzero]; exact hc.step)
    exact Or.inr ⟨rfl, hlt.2⟩
  · exact Or.inl (mbaRound_near hc.step hstep hrate)

omit hrate in
theorem osMbaRate_mono (hrate' : rate' ≤ 100) (h : rate ≤ rate') :
    osMbaRate c.throttleStep rate ≤ osMbaRate c.throttleStep rate' := by
  have hstep : c.throttleStep < 100 := by
    have := hc.sum
    have := hc.max
    omega
  have hmono := mbaRound_mono hstep hrate' h
  unfold osMbaRate
  split_ifs with h0 h0' h0'
  · exact Nat.le_refl _
  · by_contra hlt
    exact h0' (mbaRound_lt_step hc.step hstep hrate' (Nat.not_le.1 hlt)).1
  · omega
  · exact hmono

end Rates

/-! ## The MSR back end -/

section Hw

variable {p : Platform} {c : CapMba} {core socket : Nat} {requested : List Mba} {want : Bool}
  {s t : Msr}

/-- What an entry puts in the register `r`. -/
def mbaPuts (c : CapMba) (e : Mba) (r : Nat) : Option Word :=
  if r = mbaReg e.classId then some (BitVec.ofNat 64 (mbaDelay c e.mbRate)) else none

theorem mbaWriteActual_stores {e b : Mba} (h : (mbaWriteActual p c core e).run s = .ok b t) :
    Stores p core (mbaPuts c e) s t := by
  unfold mbaWriteActual at h
  simp only [bind_ok] at h
  obtain ⟨_, s₁, hw, v, s₂, hr, h⟩ := h
  cases h
  obtain ⟨-, rfl⟩ := msrRead_ok hr
  have hlog : Stores p core (fun _ => none) s₁ (s₁.log (.rd core (mbaReg e.classId))) :=
    Stores.of_mem rfl
  exact ((msrWrite_stores hw).seq hlog).congr fun _ => rfl

theorem hwMbaSet_ok {a : Option (List Mba)} (hc : p.capGetType CapItem.mba? = .ok c)
    (h : (hwMbaSet p socket requested want).run s = .ok a t) :
    ∃ core, p.cpu.getOneCore socket = .ok core ∧ (∀ e ∈ requested, e.classId < c.numClasses)
      ∧ Stores p core (fun r => (requested.filterMap (mbaPuts c · r)).getLast?) s t := by
  unfold hwMbaSet at h
  simp only [bind_ok, ofExcept_ok, failIf_ok] at h
  obtain ⟨c', _, ⟨hc', rfl⟩, _, _, ⟨-, rfl⟩, _, _, ⟨hids, rfl⟩, core, _, ⟨hcore, rfl⟩, h⟩ := h
  obtain rfl : c = c' := Except.ok.inj (hc.symm.trans hc')
  refine ⟨core, hcore, fun e he => Nat.not_le.1 fun hle => hids ⟨e, he, hle⟩, ?_⟩
  split_ifs at h
  · obtain ⟨bs, h, -⟩ := map_ok.1 h
    exact Stores.mapM (fun e _ s b t => mbaWriteActual_stores) h
  · obtain ⟨_, s', h, ht⟩ := bind_ok.1 h
    cases ht
    exact Stores.forM (fun e _ s t h => msrWrite_stores h) h

/-- The rate of class `j` as the registers `core` sees spell it. -/
def hwRateOf (p : Platform) (core : Nat) (s : Msr) (j : Nat) : Nat :=
  mbaRateOf (s.read p.cpu core (mbaReg j))

theorem hwMbaGet_ok {m : Nat} {tab : List Mba} (hc : p.capGetType CapItem.mba? = .ok c)
    (h : (hwMbaGet p socket m).run s = .ok tab t) :
    ∃ core, p.cpu.getOneCore socket = .ok core ∧ c.numClasses ≤ m
      ∧ tab = (List.range c.numClasses).map fun j => ⟨j, hwRateOf p core s j⟩ := by
  unfold hwMbaGet at h
  simp only [bind_ok, ofExcept_ok, failIf_ok] at h
  obtain ⟨n, _, ⟨hn, rfl⟩, _, _, ⟨hm, rfl⟩, core, _, ⟨hcore, rfl⟩, h⟩ := h
  obtain ⟨c', hc', rfl⟩ := mbaGetCosNum_ok.1 hn
  obtain rfl : c = c' := Except.ok.inj (hc.symm.trans hc')
  obtain ⟨rfl, -⟩ := mapM_ok_of_reads (g := mbaRead p core) Msr.mem
    (fun m j => ⟨j, hwRateOf p core ⟨m, []⟩ j⟩) (fun j s e t h => by
      unfold mbaRead at h
      rw [bind_ok] at h
      obtain ⟨v, s', hr, hv⟩ := h
      obtain ⟨rfl, rfl⟩ := msrRead_ok hr
      cases hv
      exact ⟨rfl, rfl⟩) h
  exact ⟨core, hcore, Nat.not_lt.1 hm, rfl⟩

theorem hwMbaGet_run (hp : p.Reliable) (hc : p.capGetType CapItem.mba? = .ok c)
    (hcore : p.cpu.getOneCore socket = .ok core) {m : Nat} (hm : c.numClasses ≤ m) (s : Msr) :
    ∃ tab t, (hwMbaGet p socket m).run s = .ok tab t := by
  have htotal : Total ((List.range c.numClasses).mapM (mbaRead p core)) :=
    Total.mapM fun j _ => Total.bind
      (fun s => ⟨_, _, msrRead_run hp (CpuInfo.getOneCore_mem hcore)⟩) fun _ => Total.pure _
  obtain ⟨tab, t, h⟩ := htotal s
  refine ⟨tab, t, ?_⟩
  unfold hwMbaGet
  rw [bind_of_ok (ofExcept_ok.2 ⟨mbaGetCosNum_ok.2 ⟨c, hc, rfl⟩, rfl⟩),
    bind_of_ok (a := ()) (failIf_ok.2 ⟨Nat.not_lt.2 hm, rfl⟩),
    bind_of_ok (ofExcept_ok.2 ⟨hcore, rfl⟩)]
  exact h

/-- The rate of a class is that of its last entry, where it has one. -/
theorem hwRateOf_of_stores (hc : c.Linear) (hids : ∀ e ∈ requested, e.classId < c.numClasses)
    (h : Stores p core (fun r => (requested.filterMap (mbaPuts c · r)).getLast?) s t) {j : Nat}
    (hj : j < c.numClasses) :
    hwRateOf p core t j = ((lastNamed Mba.classId j requested).map fun e =>
      hwMbaRate c e.mbRate).getD (hwRateOf p core s j) := by
  have hread := h.read (mbaReg j)
  have hclasses := hc.classes
  rw [getLast?_filterMap Mba.classId j fun e => BitVec.ofNat 64 (mbaDelay c e.mbRate)] at hread
  · unfold hwRateOf
    rw [hread]
    rcases lastNamed Mba.classId j requested with _ | e <;> rfl
  · intro e he
    have hinj : mbaReg j = mbaReg e.classId ↔ e.classId = j := by
      have := hids e he
      simp only [mbaReg, msrMbaMaskStart]
      omega
    simp [mbaPuts, hinj]

end Hw

/-! ## The OS back end -/

section Os

variable {κ : Type} {p : Platform} {fs : Resctrl κ} {text : κ → Nat → List Char} {n : Nat}
  {c : CapMba} {socket : Nat} {requested : List Mba} {want : Bool} {k k' : κ}

/-- The schemata of a class after its last entry, where it has one. -/
def mbaPut (step socket : Nat) (last : Option Mba) (s : Schemata) : Schemata :=
  match last with
  | none => s
  | some e => { s with mba := s.mba.set socket ⟨e.classId, osMbaRate step e.mbRate⟩ }

/-- From `k` to `k'` every class's file changed as the entries of `l` ask for. -/
def Puts (p : Platform) (text : κ → Nat → List Char) (n step socket : Nat) (l : List Mba)
    (k k' : κ) : Prop :=
  ∀ j < n, ∀ s, Spells p j (text k j) s →
    Spells p j (text k' j) (mbaPut step socket (lastNamed Mba.classId j l) s)

/-- Replacing the entry of a socket by one of the same class keeps the shape. -/
theorem setMba_filled (hc : p.capGetType CapItem.mba? = .ok c) (hlin : c.Linear) {e : Mba}
    (he : e.classId < c.numClasses) {txt : List Char} {s t : Schemata}
    (hs : Spells p e.classId txt s)
    (h : (setAt socket ⟨e.classId, osMbaRate c.throttleStep e.mbRate⟩ s.mba).map
      (fun l => { s with mba := l }) = .ok t) :
    s.Filled t ∧ t = mbaPut c.throttleStep socket (some e) s := by
  obtain ⟨l, hl, rfl⟩ := except_map_ok.1 h
  obtain ⟨a, ha, -, rfl⟩ := setEntry_ok hl
  have hkey : a.classId = e.classId := by
    have hmem : a.classId ∈ s.mba.map Mba.classId :=
      List.mem_map_of_mem (List.mem_of_getElem? ha)
    rw [hs.mba hc he] at hmem
    exact List.eq_of_mem_replicate hmem
  refine ⟨⟨⟨rfl, rfl, map_set_self ha hkey.symm⟩, fun hrates ca hca => ?_⟩, rfl⟩
  rcases List.mem_or_eq_of_mem_set hca with hca | rfl
  · exact hrates ca hca
  · have hsum := hlin.sum
    exact osMbaRate_lt (by omega)

/-- Putting an entry after another of the same class leaves the later one. -/
theorem mbaPut_concat {step j : Nat} {l : List Mba} {e : Mba} {s : Schemata} :
    mbaPut step socket (lastNamed Mba.classId j (l ++ [e])) s
      = if e.classId = j then
          mbaPut step socket (some e) (mbaPut step socket (lastNamed Mba.classId j l) s)
        else mbaPut step socket (lastNamed Mba.classId j l) s := by
  rw [lastNamed_concat]
  split_ifs
  · rcases lastNamed Mba.classId j l with _ | e'
    · rfl
    · simp only [mbaPut, List.set_set]
  · rfl

variable (hfs : SchemataFiles p fs text n) (hc : p.capGetType CapItem.mba? = .ok c)
  (hlin : c.Linear) (hle : n ≤ c.numClasses)
include hfs hc hlin hle

theorem osMbaWrite_puts {pre : List Mba} {e : Mba} (he : e.classId < n) {k₀ : κ} {t : Schemata}
    (hpre : Puts p text n c.throttleStep socket pre k₀ k)
    (h : (osMbaWrite p fs c.throttleStep socket e).run k = .ok t k') :
    Puts p text n c.throttleStep socket (pre ++ [e]) k₀ k' := by
  have hclass : e.classId < c.numClasses := Nat.lt_of_lt_of_le he hle
  obtain ⟨s, hs, ht, -, hspells, hother⟩ := schemataUpdate_ok hfs he
    (fun s t hs ht => (setMba_filled hc hlin hclass hs ht).1) h
  intro j hj s₀ hs₀
  have hs₁ := hpre j hj s₀ hs₀
  rw [mbaPut_concat]
  split_ifs with hje
  · subst hje
    rw [hs₁.unique hs, ← (setMba_filled hc hlin hclass hs ht).2]
    exact hspells
  · rw [hother j (Ne.symm hje)]
    exact hs₁

theorem osMbaWriteActual_puts {pre : List Mba} {e b : Mba} (he : e.classId < n) {k₀ : κ}
    (hpre : Puts p text n c.throttleStep socket pre k₀ k)
    (h : (osMbaWriteActual p fs c.throttleStep socket e).run k = .ok b k') :
    Puts p text n c.throttleStep socket (pre ++ [e]) k₀ k' := by
  unfold osMbaWriteActual schemataReadFile readFile at h
  simp only [bind_ok, ofExcept_ok, ofOption_ok, mapError_ok] at h
  obtain ⟨t, k₁, hw, _, k₂, ⟨txt, k₃, hread, -, rfl⟩, -, rfl⟩ := h
  obtain ⟨k₄, hrun, htext⟩ := hfs.read k₁ e.classId he
  rw [hrun] at hread
  cases hread
  have := osMbaWrite_puts hfs hc hlin hle he hpre hw
  intro j hj s hs
  rw [htext]
  exact this j hj s hs

theorem osMbaSet_ok {a : Option (List Mba)} (hn : p.getGrpsNum = .ok n)
    (h : (osMbaSet p fs socket requested want).run k = .ok a k') :
    (∀ e ∈ requested, e.classId < n) ∧ Puts p text n c.throttleStep socket requested k k' := by
  unfold osMbaSet at h
  simp only [bind_ok, ofExcept_ok, ofOption_ok, failIf_ok] at h
  obtain ⟨c', _, ⟨hc', rfl⟩, n', _, ⟨hn', rfl⟩, _, _, ⟨-, rfl⟩, _, _, ⟨hids, rfl⟩, _, _,
    ⟨-, rfl⟩, h⟩ := h
  rw [hc] at hc'
  obtain rfl : c = c' := Option.some.inj hc'
  obtain rfl : n = n' := Except.ok.inj (hn.symm.trans hn')
  have hids : ∀ e ∈ requested, e.classId < n := fun e he => Nat.not_le.1 fun hle =>
    hids ⟨e, he, hle⟩
  refine ⟨hids, ?_⟩
  split_ifs at h
  · obtain ⟨bs, h, -⟩ := map_ok.1 h
    exact mapM_ok (fun l k₁ => Puts p text n c.throttleStep socket l _ k₁) h
      (fun j hj s hs => hs) fun pre e post b k₁ k₂ hl hpre he =>
        osMbaWriteActual_puts hfs hc hlin hle (hids e (by simp [hl])) hpre he
  · obtain ⟨_, k₁, h, hk⟩ := bind_ok.1 h
    cases hk
    refine forM_ok (fun l k₁ => Puts p text n c.throttleStep socket l _ k₁) h
      (fun j hj s hs => hs) fun pre e post k₁ k₂ hl hpre he => ?_
    obtain ⟨t, k₃, hw, hk⟩ := bind_ok.1 he
    cases hk
    exact osMbaWrite_puts hfs hc hlin hle (hids e (by simp [hl])) hpre hw

omit hc hlin hle in
theorem osMbaGet_ok {m : Nat} {tab : List Mba} (hn : p.getGrpsNum = .ok n)
    (h : (osMbaGet p fs socket m).run k = .ok tab k') :
    n ≤ m ∧ socket < p.cpu.getSockets.length ∧ tab.length = n
      ∧ ∀ j < n, ∃ s, Spells p j (text k j) s ∧ s.mba[socket]? = tab[j]? := by
  unfold osMbaGet at h
  simp only [bind_ok, ofExcept_ok, failIf_ok] at h
  obtain ⟨_, k₀, ⟨-, hk₀⟩, n', _, ⟨hn', rfl⟩, _, _, ⟨hm, rfl⟩, _, _, ⟨hsocket, rfl⟩, h⟩ := h
  obtain rfl : n = n' := Except.ok.inj (hn.symm.trans hn')
  rw [hk₀] at h
  obtain ⟨hlen, hall⟩ := schemataEntry_mapM_ok hfs (Nat.le_refl n) h
  exact ⟨Nat.not_lt.1 hm, Nat.not_le.1 hsocket, hlen, hall⟩

omit hlin hle in
theorem osMbaGet_run {m : Nat} (hn : p.getGrpsNum = .ok n) (hm : n ≤ m)
    (hsocket : socket < p.cpu.getSockets.length)
    (h : ∀ j < n, ∃ s a, Spells p j (text k j) s ∧ s.mba[socket]? = some a) :
    ∃ tab k', (osMbaGet p fs socket m).run k = .ok tab k' := by
  obtain ⟨tab, k', hrun⟩ := schemataEntry_mapM_run hfs (Nat.le_refl n) h
  refine ⟨tab, k', ?_⟩
  unfold osMbaGet
  rw [bind_of_ok (a := ()) (failIf_ok.2 ⟨by rw [hc]; exact Option.some_ne_none c, rfl⟩),
    bind_of_ok (ofExcept_ok.2 ⟨hn, rfl⟩), bind_of_ok (a := ()) (failIf_ok.2 ⟨Nat.not_lt.2 hm, rfl⟩),
    bind_of_ok (a := ()) (failIf_ok.2 ⟨Nat.not_le.2 hsocket, rfl⟩)]
  exact hrun

end Os

/-- The entry of the socket after the last entry of the class, where it has one. -/
theorem mbaPut_entry {step socket j rate : Nat} {requested : List Mba} {s : Schemata}
    (h : s.mba[socket]? = some ⟨j, rate⟩) :
    (mbaPut step socket (lastNamed Mba.classId j requested) s).mba[socket]?
      = some ⟨j, ((lastNamed Mba.classId j requested).map fun e =>
        osMbaRate step e.mbRate).getD rate⟩ := by
  rcases hlast : lastNamed Mba.classId j requested with _ | e
  · exact h
  · obtain ⟨hsocket, -⟩ := List.getElem?_eq_some_iff.1 h
    obtain ⟨-, rfl⟩ := lastNamed_mem _ _ hlast
    exact List.getElem?_set_self hsocket

/-! ## Both -/

/-- What is asked of the tables that the back ends report on a socket after a request. -/
structure MbaReports (step : Nat) (requested hw os : List Mba) : Prop where
  agree : ∀ j < os.length, hw[j]? = os[j]?
  named : ∀ j e, lastNamed Mba.classId j requested = some e → ∃ rate, os[j]? = some ⟨j, rate⟩
    ∧ step ≤ rate ∧ rate ≤ 100
    ∧ (2 * rate ≤ 2 * e.mbRate + step ∧ 2 * e.mbRate ≤ 2 * rate + step
      ∨ rate = step ∧ e.mbRate < step)

/-- A class whose last requested rate is no lower is reported at a rate no lower. -/
def MbaMonotone (requested hw requested' hw' : List Mba) : Prop :=
  ∀ j e e' a a', lastNamed Mba.classId j requested = some e →
    lastNamed Mba.classId j requested' = some e' → e.mbRate ≤ e'.mbRate →
    hw[j]? = some a → hw'[j]? = some a' → a.mbRate ≤ a'.mbRate

/-- No class's last requested rate rounds past 100. -/
def MbaInRange (step : Nat) (requested : List Mba) : Prop :=
  ∀ j e, lastNamed Mba.classId j requested = some e → mbaRound step e.mbRate ≤ 100

/-- From `s` and `k`, where a socket's classes have the same rates on both interfaces, both accept a
table of rates from 1 to 100, and end in `t` and `k'`. -/
structure MbaAccepted {κ : Type} (p : Platform) (fs : Resctrl κ) (socket m : Nat) (want : Bool)
    (requested : List Mba) (s t : Msr) (k k' : κ) : Prop where
  same : ∃ hw os s' k₁, (hwMbaGet (p.on .msr) socket m).run s = .ok hw s'
    ∧ (osMbaGet (p.on .os) fs socket m).run k = .ok os k₁ ∧ ∀ j < os.length, hw[j]? = os[j]?
  rates : ∀ e ∈ requested, 1 ≤ e.mbRate ∧ e.mbRate ≤ 100
  hw : ∃ a, (hwMbaSet (p.on .msr) socket requested want).run s = .ok a t
  os : ∃ a, (osMbaSet (p.on .os) fs socket requested want).run k = .ok a k'

/-- What the getters report on a socket in `t` and `l`. -/
def MbaReported {κ : Type} (p : Platform) (fs : Resctrl κ) (socket m : Nat) (t : Msr) (l : κ)
    (hw os : List Mba) : Prop :=
  (∃ t', (hwMbaGet (p.on .msr) socket m).run t = .ok hw t')
    ∧ ∃ l', (osMbaGet (p.on .os) fs socket m).run l = .ok os l'

/-- Each of `n` classes at the rate its last entry reads as, or, where it has none, at `r`. -/
structure MbaTables (c : CapMba) (n : Nat) (requested : List Mba) (r : Nat → Nat)
    (hw os : List Mba) : Prop where
  length : os.length = n
  hw : ∀ j < n, hw[j]? = some ⟨j, ((lastNamed Mba.classId j requested).map fun e =>
    hwMbaRate c e.mbRate).getD (r j)⟩
  os : ∀ j < n, os[j]? = some ⟨j, ((lastNamed Mba.classId j requested).map fun e =>
    osMbaRate c.throttleStep e.mbRate).getD (r j)⟩

section Both

variable {κ : Type} {p : Platform} {fs : Resctrl κ} {text : κ → Nat → List Char} {n : Nat}
  {c : CapMba} (hc : ∀ i, (p.on i).capGetType CapItem.mba? = .ok c) (hlin : c.Linear)
  (hn : (p.on .os).getGrpsNum = .ok n) (hfs : SchemataFiles (p.on .os) fs text n) {socket m : Nat}
  {want : Bool}
include hc hlin hn hfs

/-- What is reported of each class: its last entry as the back end makes it read, or, where it has
none, the rate it had on both. -/
theorem mbaAccepted_reports {requested : List Mba} {s t : Msr} {k k' : κ}
    (h : MbaAccepted p fs socket m want requested s t k k') :
    (∀ e ∈ requested, e.classId < n) ∧ (p.Reliable → ∃ hw os, MbaReported p fs socket m t k' hw os)
      ∧ ∃ r : Nat → Nat, ∀ hw os, MbaReported p fs socket m t k' hw os →
        MbaTables c n requested r hw os := by
  obtain ⟨hw₀, os₀, s', k₀, hget, hoget, hsame⟩ := h.same
  obtain ⟨core, hcore, hm, rfl⟩ := hwMbaGet_ok (hc .msr) hget
  obtain ⟨hnm, hsocket, hlen, hspells⟩ := osMbaGet_ok hfs hn hoget
  have hhw : ∀ j < c.numClasses, ∀ s, ((List.range c.numClasses).map fun j =>
      (⟨j, hwRateOf (p.on .msr) core s j⟩ : Mba))[j]?
        = some ⟨j, hwRateOf (p.on .msr) core s j⟩ := by
    intro j hj s
    rw [List.getElem?_map, List.getElem?_range hj, Option.map_some]
  have hle : n ≤ c.numClasses := by
    by_contra hlt
    have hsome := hsame c.numClasses (by omega)
    rw [List.getElem?_eq_none (by simp), eq_comm, List.getElem?_eq_none_iff] at hsome
    omega
  obtain ⟨a, hset⟩ := h.hw
  obtain ⟨core', hcore', hids', hstores⟩ := hwMbaSet_ok (hc .msr) hset
  obtain rfl : core = core' := Except.ok.inj (hcore.symm.trans hcore')
  obtain ⟨b, hoset⟩ := h.os
  obtain ⟨hids, hputs⟩ := osMbaSet_ok hfs (hc .os) hlin hle hn hoset
  have hentry : ∀ j < n, ∃ u, Spells (p.on .os) j (text k' j) u ∧ u.mba[socket]? = some
      ⟨j, ((lastNamed Mba.classId j requested).map fun e => osMbaRate c.throttleStep e.mbRate).getD
        (hwRateOf (p.on .msr) core s j)⟩ := by
    intro j hj
    obtain ⟨u, hu, he⟩ := hspells j hj
    rw [← hsame j (by omega), hhw j (by omega)] at he
    exact ⟨_, hputs j hj u hu, mbaPut_entry he⟩
  refine ⟨hids, fun hp => ?_, hwRateOf (p.on .msr) core s, ?_⟩
  · obtain ⟨hw, t', hw'⟩ := hwMbaGet_run (p := p.on .msr) hp (hc .msr) hcore hm t
    obtain ⟨os, k₁, hos'⟩ := osMbaGet_run hfs (hc .os) hn hnm hsocket fun j hj => by
      obtain ⟨u, hu, he⟩ := hentry j hj
      exact ⟨u, _, hu, he⟩
    exact ⟨hw, os, ⟨t', hw'⟩, k₁, hos'⟩
  · rintro hw os ⟨⟨t', hw'⟩, k₁, hos'⟩
    obtain ⟨core', hcore', -, rfl⟩ := hwMbaGet_ok (hc .msr) hw'
    obtain rfl : core = core' := Except.ok.inj (hcore.symm.trans hcore')
    obtain ⟨-, -, hlen', hspells'⟩ := osMbaGet_ok hfs hn hos'
    refine ⟨hlen', fun j hj => ?_, fun j hj => ?_⟩
    · rw [hhw j (by omega), hwRateOf_of_stores hlin hids' hstores (Nat.lt_of_lt_of_le hj hle)]
    · obtain ⟨u, hu, he⟩ := hentry j hj
      obtain ⟨v, hv, hget'⟩ := hspells' j hj
      rw [← hget', hv.unique hu, he]

omit hc hn hfs in
/-- The reports are as asked exactly when no rate rounds past 100: past it, the MSR back end's
subtraction wraps and the clamp leaves the smallest rate, while the OS back end reports more than
100. -/
theorem mbaReports_iff {requested hw os : List Mba} {r : Nat → Nat}
    (hrates : ∀ e ∈ requested, 1 ≤ e.mbRate ∧ e.mbRate ≤ 100)
    (hids : ∀ e ∈ requested, e.classId < n) (h : MbaTables c n requested r hw os) :
    MbaReports c.throttleStep requested hw os ↔ MbaInRange c.throttleStep requested := by
  constructor
  · intro hreports j e hlast
    obtain ⟨he, rfl⟩ := lastNamed_mem _ _ hlast
    obtain ⟨rate, hos, -, hle, -⟩ := hreports.named _ e hlast
    rw [h.os _ (hids e he), hlast] at hos
    have hrate : osMbaRate c.throttleStep e.mbRate = rate := by simpa using hos
    unfold osMbaRate at hrate
    split_ifs at hrate <;> omega
  · intro hrange
    refine ⟨fun j hj => ?_, fun j e hlast => ?_⟩
    · rw [h.length] at hj
      rw [h.hw j hj, h.os j hj]
      rcases hlast : lastNamed Mba.classId j requested with _ | e
      · rfl
      · have he := hrates e (lastNamed_mem _ _ hlast).1
        rw [Option.map_some, Option.map_some,
          hwMbaRate_eq_osMbaRate hlin he.2 (hrange j e hlast)]
    · obtain ⟨he, rfl⟩ := lastNamed_mem _ _ hlast
      have hos := h.os _ (hids e he)
      rw [hlast] at hos
      obtain ⟨hlow, hhigh⟩ := osMbaRate_bounds hlin (hrates e he).2 (hrange _ e hlast)
      exact ⟨_, hos, hlow, hhigh, osMbaRate_near hlin (hrates e he).2⟩

/-- What an accepted table leaves is reported as asked, and so is a second one, with the higher rate
for a class reported no lower, exactly when no class's last rate in either rounds past 100. -/
theorem mbaBackends_agree {requested requested' : List Mba} {s t s' t' : Msr} {k l k' l' : κ}
    (h : MbaAccepted p fs socket m want requested s t k l)
    (h' : MbaAccepted p fs socket m want requested' s' t' k' l') :
    (p.Reliable → ∃ hw os, MbaReported p fs socket m t l hw os)
      ∧ ∀ hw os hw' os', MbaReported p fs socket m t l hw os →
        MbaReported p fs socket m t' l' hw' os' →
        (MbaReports c.throttleStep requested hw os ∧ MbaReports c.throttleStep requested' hw' os'
            ∧ MbaMonotone requested hw requested' hw'
          ↔ MbaInRange c.throttleStep requested ∧ MbaInRange c.throttleStep requested') := by
  obtain ⟨hids, hex, r, hall⟩ := mbaAccepted_reports hc hlin hn hfs h
  obtain ⟨hids', -, r', hall'⟩ := mbaAccepted_reports hc hlin hn hfs h'
  refine ⟨hex, fun hw os hw' os' hrep hrep' => ?_⟩
  have htab := hall hw os hrep
  have htab' := hall' hw' os' hrep'
  rw [mbaReports_iff hlin h.rates hids htab, mbaReports_iff hlin h'.rates hids' htab']
  refine ⟨fun ⟨hr, hr', _⟩ => ⟨hr, hr'⟩, fun ⟨hr, hr'⟩ => ⟨hr, hr', ?_⟩⟩
  intro j e e' a a' hlast hlast' hle ha ha'
  obtain ⟨he, rfl⟩ := lastNamed_mem _ _ hlast
  have he' := (lastNamed_mem _ _ hlast').1
  rw [htab.hw _ (hids e he), hlast] at ha
  rw [htab'.hw _ (hids e he), hlast'] at ha'
  cases ha
  cases ha'
  simp only [Option.map_some, Option.getD_some]
  rw [hwMbaRate_eq_osMbaRate hlin (h.rates e he).2 (hr _ e hlast),
    hwMbaRate_eq_osMbaRate hlin (h'.rates e' he').2 (hr' _ e' hlast')]
  exact osMbaRate_mono hlin (h'.rates e' he').2 hle

end Both

/-- Values returned from given states witness an accepted request and what it is reported as. -/
theorem mbaAccepted_of_values {κ : Type} (p : Platform) (fs : Resctrl κ) (socket m : Nat)
    (want : Bool) (requested : List Mba) (s : Msr) (k : κ) (hw₀ os₀ hw os : List Mba)
    (hhw₀ : value ((hwMbaGet (p.on .msr) socket m).run s) = some hw₀)
    (hos₀ : value ((osMbaGet (p.on .os) fs socket m).run k) = some os₀)
    (hsame : ∀ j < os₀.length, hw₀[j]? = os₀[j]?)
    (hrates : ∀ e ∈ requested, 1 ≤ e.mbRate ∧ e.mbRate ≤ 100)
    (hhw : value ((hwMbaSet (p.on .msr) socket requested want >>= fun _ =>
      hwMbaGet (p.on .msr) socket m).run s) = some hw)
    (hos : value ((osMbaSet (p.on .os) fs socket requested want >>= fun _ =>
      osMbaGet (p.on .os) fs socket m).run k) = some os) :
    ∃ t l, MbaAccepted p fs socket m want requested s t k l
      ∧ MbaReported p fs socket m t l hw os := by
  simp only [value_eq_some, bind_ok] at hhw₀ hos₀ hhw hos
  obtain ⟨s', hhw₀⟩ := hhw₀
  obtain ⟨k', hos₀⟩ := hos₀
  obtain ⟨t', a, t, hset, hget⟩ := hhw
  obtain ⟨l', b, l, hoset, hoget⟩ := hos
  exact ⟨t, l, ⟨⟨hw₀, os₀, s', k', hhw₀, hos₀, hsame⟩, hrates, ⟨a, hset⟩, b, hoset⟩,
    ⟨t', hget⟩, l', hoget⟩

/-- Two classes on both interfaces. -/
def mbaPlatform (max step : Nat) : Platform := smallPlatform [⟨true, .mba ⟨2, max, step, true⟩⟩]

/-- Every class at its full rate. -/
def fullRates (_classId : Nat) : List Char := "MB:0=100\n".toList

theorem mbaPlatform_linear : CapMba.Linear ⟨2, 90, 10, true⟩ := by
  refine ⟨rfl, ?_, ?_, rfl, ?_⟩ <;> decide

/-- With steps of 10, rates of 44 and 46 are reported as 40 and 50. -/
theorem mbaBackends_agree_tens :
    MbaReports 10 [⟨1, 44⟩] [⟨0, 100⟩, ⟨1, 40⟩] [⟨0, 100⟩, ⟨1, 40⟩]
        ∧ MbaReports 10 [⟨1, 46⟩] [⟨0, 100⟩, ⟨1, 50⟩] [⟨0, 100⟩, ⟨1, 50⟩]
        ∧ MbaMonotone [⟨1, 44⟩] [⟨0, 100⟩, ⟨1, 40⟩] [⟨1, 46⟩] [⟨0, 100⟩, ⟨1, 50⟩]
      ↔ MbaInRange 10 [⟨1, 44⟩] ∧ MbaInRange 10 [⟨1, 46⟩] := by
  obtain ⟨t, l, h, hrep⟩ := mbaAccepted_of_values (mbaPlatform 90 10) plainFiles 0 2 true
    [⟨1, 44⟩] ⟨fun _ => 0, []⟩ fullRates [⟨0, 100⟩, ⟨1, 100⟩] [⟨0, 100⟩, ⟨1, 100⟩]
    [⟨0, 100⟩, ⟨1, 40⟩] [⟨0, 100⟩, ⟨1, 40⟩] (by decide +kernel) (by decide +kernel) (by decide)
    (by decide) (by decide +kernel) (by decide +kernel)
  obtain ⟨t', l', h', hrep'⟩ := mbaAccepted_of_values (mbaPlatform 90 10) plainFiles 0 2 true
    [⟨1, 46⟩] ⟨fun _ => 0, []⟩ fullRates [⟨0, 100⟩, ⟨1, 100⟩] [⟨0, 100⟩, ⟨1, 100⟩]
    [⟨0, 100⟩, ⟨1, 50⟩] [⟨0, 100⟩, ⟨1, 50⟩] (by decide +kernel) (by decide +kernel) (by decide)
    (by decide) (by decide +kernel) (by decide +kernel)
  exact (mbaBackends_agree (c := ⟨2, 90, 10, true⟩) (fun i => by cases i <;> rfl)
    mbaPlatform_linear rfl (plainFiles_schemataFiles _ _) h h').2 _ _ _ _ hrep hrep'

/-- A request for the full rate in steps of 40 rounds to 120. The MSR back end reports 40 for it and
the OS back end 120. -/
theorem mbaBackends_disagree :
    ∃ t l, MbaAccepted (mbaPlatform 60 40) plainFiles 0 2 false [⟨1, 100⟩] ⟨fun _ => 0, []⟩ t
        fullRates l
      ∧ MbaReported (mbaPlatform 60 40) plainFiles 0 2 t l [⟨0, 100⟩, ⟨1, 40⟩] [⟨0, 100⟩, ⟨1, 120⟩]
      ∧ ¬ MbaReports 40 [⟨1, 100⟩] [⟨0, 100⟩, ⟨1, 40⟩] [⟨0, 100⟩, ⟨1, 120⟩] := by
  obtain ⟨t, l, h, hrep⟩ := mbaAccepted_of_values (mbaPlatform 60 40) plainFiles 0 2 false
    [⟨1, 100⟩] ⟨fun _ => 0, []⟩ fullRates [⟨0, 100⟩, ⟨1, 100⟩] [⟨0, 100⟩, ⟨1, 100⟩]
    [⟨0, 100⟩, ⟨1, 40⟩] [⟨0, 100⟩, ⟨1, 120⟩] (by decide +kernel) (by decide +kernel) (by decide)
    (by decide) (by decide +kernel) (by decide +kernel)
  refine ⟨t, l, h, hrep, fun hreports => ?_⟩
  have := hreports.agree 1 (by decide)
  simp at this

end Pqos
