import Pqos.Allocation
import Pqos.Lib.Table

/-!
# What a request table leaves in the registers

A setter writes the entries of its table in order through one core. Each register of the bank ends
up with what the last entry that writes it put there, and the rest of the machine is as before.
-/

namespace Pqos

open Prog Table

variable {p : Platform} {core : Nat}

theorem CpuInfo.loc_inj {cpu : CpuInfo} {lcore r r' : Nat}
    (h : cpu.loc lcore r = cpu.loc lcore r') : r = r' := by
  unfold CpuInfo.loc at h
  split at h
  · exact (Loc.core.inj h).2
  · split_ifs at h <;> simp_all

/-- The machine has a register in the bank for every class its capabilities report. -/
structure Platform.FitsBanks (p : Platform) : Prop where
  l3 : ∀ c, p.capGetType CapItem.l3ca? = .ok c →
    (if c.cdpOn then 2 * c.numClasses else c.numClasses) ≤ msrL3caMaskEnd + 1 - msrL3caMaskStart
  l2 : ∀ c, p.capGetType CapItem.l2ca? = .ok c → c.numClasses ≤ msrMbaMaskStart - msrL2caMaskStart
  mba : ∀ c, p.capGetType CapItem.mba? = .ok c → c.numClasses ≤ 2 ^ 16

/-- From `s` to `t`, `core` stored `w r` in each register `r` where that is something, and no
other register changed. -/
structure Stores (p : Platform) (core : Nat) (w : Nat → Option Word) (s t : Msr) : Prop where
  read : ∀ r, t.read p.cpu core r = (w r).getD (s.read p.cpu core r)
  frame : ∀ l, (∀ r v, w r = some v → l ≠ p.cpu.loc core r) → t.mem l = s.mem l

namespace Stores

variable {w w' : Nat → Option Word} {s t u : Msr}

theorem congr (h : Stores p core w s t) (hw : ∀ r, w r = w' r) : Stores p core w' s t := by
  rwa [← funext hw]

theorem of_mem (h : t.mem = s.mem) : Stores p core (fun _ => none) s t :=
  ⟨fun _ => by simp [Msr.read, h], fun _ _ => by rw [h]⟩

theorem of_update {reg : Nat} {v : Word}
    (h : t.mem = Function.update s.mem (p.cpu.loc core reg) v) :
    Stores p core (fun r => if r = reg then some v else none) s t := by
  refine ⟨fun r => ?_, fun l hl => ?_⟩
  · rw [Msr.read, h]
    split_ifs with hr
    · rw [hr, Function.update_self, Option.getD_some]
    · exact Function.update_of_ne (fun he => hr (CpuInfo.loc_inj he)) _ _
  · rw [h]
    exact Function.update_of_ne (hl reg v (if_pos rfl)) _ _

theorem seq (h : Stores p core w s t) (h' : Stores p core w' t u) :
    Stores p core (fun r => (w' r).or (w r)) s u := by
  refine ⟨fun r => ?_, fun l hl => ?_⟩
  · rw [h'.read, h.read]
    cases w' r <;> rfl
  · rw [h'.frame l fun r v hv => hl r v (by rw [hv, Option.some_or])]
    refine h.frame l fun r v hv => ?_
    rcases hr : w' r with _ | v'
    · exact hl r v (by rw [hr, Option.none_or, hv])
    · exact hl r v' (by rw [hr, Option.some_or])

section Loop

variable {α β : Type} {w : α → Nat → Option Word} {l : List α}

theorem snoc {pre : List α} {a : α}
    (h : Stores p core (fun r => (pre.filterMap (w · r)).getLast?) s t)
    (ha : Stores p core (w a) t u) :
    Stores p core (fun r => ((pre ++ [a]).filterMap (w · r)).getLast?) s u := by
  refine (h.seq ha).congr fun r => ?_
  rw [List.filterMap_append]
  cases hw : w a r <;> simp [hw]

/-- A loop of stores leaves in each register what the last store to it put there. -/
theorem forM {f : α → EStateM Err Msr Unit}
    (hf : ∀ a ∈ l, ∀ s t, (f a).run s = .ok () t → Stores p core (w a) s t)
    (h : (l.forM f).run s = .ok () t) :
    Stores p core (fun r => (l.filterMap (w · r)).getLast?) s t :=
  forM_ok (fun l t => Stores p core (fun r => (l.filterMap (w · r)).getLast?) s t) h (of_mem rfl)
    fun _ a _ t t' hl hI ha => hI.snoc (hf a (by simp [hl]) t t' ha)

theorem mapM {g : α → EStateM Err Msr β} {bs : List β}
    (hg : ∀ a ∈ l, ∀ s b t, (g a).run s = .ok b t → Stores p core (w a) s t)
    (h : (l.mapM g).run s = .ok bs t) :
    Stores p core (fun r => (l.filterMap (w · r)).getLast?) s t :=
  mapM_ok (fun l t => Stores p core (fun r => (l.filterMap (w · r)).getLast?) s t) h (of_mem rfl)
    fun _ a _ b t t' hl hI ha => hI.snoc (hg a (by simp [hl]) t b t' ha)

end Loop

end Stores

/-! ## One entry -/

section Entry

variable {s t : Msr}

theorem msrWrite_stores {reg : Nat} {v : Word} (h : (msrWrite p core reg v).run s = .ok () t) :
    Stores p core (fun r => if r = reg then some v else none) s t :=
  Stores.of_update (by rw [msrWrite_ok h]; rfl)

/-- What an L3 entry puts in the register `r`. -/
def l3caPuts (cdpOn : Bool) (e : L3ca) (r : Nat) : Option Word :=
  if cdpOn then
    if r = (l3caReg true e.classId + 1) % 2 ^ 32 then some e.u.codeMask
    else if r = l3caReg true e.classId then some e.u.dataMask
    else none
  else if r = l3caReg false e.classId then some e.u.dataMask
  else none

theorem l3caWrite_stores {cdpOn : Bool} {e : L3ca}
    (h : (l3caWrite p cdpOn core e).run s = .ok () t) :
    Stores p core (l3caPuts cdpOn e) s t ∧ (cdpOn = true ∨ e.cdp = false) := by
  unfold l3caWrite l3caWriteCdp l3caWriteNoCdp at h
  cases cdpOn
  · rcases e with ⟨classId, m | ⟨d, m⟩⟩
    · exact ⟨(msrWrite_stores h).congr fun _ => rfl, Or.inr rfl⟩
    · cases h
  · rw [if_pos rfl, bind_ok] at h
    obtain ⟨_, s', hd, hc⟩ := h
    refine ⟨((msrWrite_stores hd).seq (msrWrite_stores hc)).congr fun r => ?_, Or.inl rfl⟩
    unfold l3caPuts
    rw [if_pos rfl]
    split_ifs <;> rfl

end Entry

/-! ## The L3 setter as its checks and its loop -/

/-- The checks the L3 setter makes before its loop. -/
structure L3Ready (p : Platform) (socket : Nat) (ca : List L3ca) (c : CapL3ca) (core : Nat) :
    Prop where
  cap : p.capGetType CapItem.l3ca? = .ok c
  length : ca.length ≤ c.numClasses
  core : p.cpu.getOneCore socket = .ok core

section L3

variable {socket : Nat} {ca : List L3ca} {c : CapL3ca}

theorem L3Ready.run (h : L3Ready p socket ca c core) (s : Msr) :
    (hwL3caSet p socket ca).run s = (ca.forM (l3caWrite p c.cdpOn core)).run s := by
  unfold hwL3caSet
  rw [bind_of_ok (ofExcept_ok.2 ⟨l3caGetCosNum_ok.2 ⟨c, h.cap, rfl⟩, rfl⟩),
    bind_of_ok (a := ()) (failIf_ok.2 ⟨Nat.not_lt.2 h.length, rfl⟩),
    bind_of_ok (ofExcept_ok.2 ⟨l3caCdpEnabled_ok.2 ⟨c, h.cap, rfl⟩, rfl⟩),
    bind_of_ok (ofExcept_ok.2 ⟨h.core, rfl⟩)]

/-- A call that does not fail on the spot passes the checks. -/
theorem l3Ready_or_rejects (p : Platform) (socket : Nat) (ca : List L3ca) :
    (∃ c core, L3Ready p socket ca c core)
      ∨ ∃ e, ∀ s, (hwL3caSet p socket ca).run s = .error e s := by
  rcases hc : p.capGetType CapItem.l3ca? with e | c
  · refine Or.inr ⟨e, fun s => bind_of_error (ofExcept_error.2 ⟨?_, rfl⟩)⟩
    rw [Platform.l3caGetCosNum, hc]
    rfl
  have hn : p.l3caGetCosNum = .ok c.numClasses := l3caGetCosNum_ok.2 ⟨c, hc, rfl⟩
  by_cases hlen : c.numClasses < ca.length
  · refine Or.inr ⟨.error, fun s => ?_⟩
    unfold hwL3caSet
    rw [bind_of_ok (ofExcept_ok.2 ⟨hn, rfl⟩)]
    exact bind_of_error (failIf_error.2 ⟨hlen, rfl, rfl⟩)
  rcases hcore : p.cpu.getOneCore socket with e | core
  · refine Or.inr ⟨e, fun s => ?_⟩
    unfold hwL3caSet
    rw [bind_of_ok (ofExcept_ok.2 ⟨hn, rfl⟩), bind_of_ok (a := ()) (failIf_ok.2 ⟨hlen, rfl⟩),
      bind_of_ok (ofExcept_ok.2 ⟨l3caCdpEnabled_ok.2 ⟨c, hc, rfl⟩, rfl⟩)]
    exact bind_of_error (ofExcept_error.2 ⟨hcore, rfl⟩)
  · exact Or.inl ⟨c, core, hc, Nat.not_lt.1 hlen, hcore⟩

end L3

end Pqos
