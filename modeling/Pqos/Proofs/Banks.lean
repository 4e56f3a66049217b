import Pqos.Api
import Pqos.Proofs.Tables
import Mathlib.Data.List.TakeWhile

/-!
# The setters and the banks of class registers

A run is confined to a set of core and register pairs when every write it attempts is to one of
them and every other register keeps its value. The L2 and MBA setters check class ids against the
number of classes and stay in their bank. The L3 setter does not, so a large class id takes it to
the registers of the next bank.
-/

namespace Pqos

open Prog

/-! ## Confinement -/

structure Confined (p : Platform) (W : Nat → Nat → Prop) (s t : Msr) : Prop where
  writes : ∃ new, t.trace = new ++ s.trace ∧ ∀ lcore reg v, .wr lcore reg v ∈ new → W lcore reg
  frame : ∀ l, (∀ lcore reg, W lcore reg → l ≠ p.cpu.loc lcore reg) → t.mem l = s.mem l

section Confined

variable {p : Platform} {W : Nat → Nat → Prop}

theorem Confined.isFrame : Frame (Confined p W) := by
  have hwrites : Frame fun s t : Msr => ∃ new, t.trace = new ++ s.trace
      ∧ ∀ lcore reg v, .wr lcore reg v ∈ new → W lcore reg :=
    Frame.grows Msr.trace (by simp) fun hl hl' lcore reg v h =>
      (List.mem_append.1 h).elim (hl lcore reg v) (hl' lcore reg v)
  exact ⟨fun s => ⟨hwrites.refl s, fun _ _ => rfl⟩, fun h h' =>
    ⟨hwrites.trans h.writes h'.writes, fun l hl => (h'.frame l hl).trans (h.frame l hl)⟩⟩

theorem Confined.of_log {a : Access} {s t : Msr} (ht : t = s.log a)
    (ha : ∀ lcore reg v, a = .wr lcore reg v → W lcore reg) : Confined p W s t := by
  subst ht
  refine ⟨⟨[a], rfl, fun lcore reg v hv => ?_⟩, fun _ _ => rfl⟩
  exact ha lcore reg v (List.mem_singleton.1 hv).symm

theorem msrAccess_confined {a : Access} (ha : ∀ lcore reg v, a = .wr lcore reg v → W lcore reg) :
    Keeps (Confined p W) (msrAccess p a) := by
  unfold msrAccess
  refine keeps_failIf_bind Confined.isFrame fun _ s => ?_
  rw [get_bind, set_bind, failIf_run]
  split_ifs <;> exact Confined.of_log rfl ha

theorem msrRead_confined {lcore reg : Nat} : Keeps (Confined p W) (msrRead p lcore reg) :=
  Keeps.bind Confined.isFrame (msrAccess_confined fun _ _ _ h => by cases h) fun _ =>
    Keeps.bind Confined.isFrame (fun s => Confined.isFrame.refl s) fun _ =>
      Keeps.pure Confined.isFrame _

theorem msrWrite_confined {lcore reg : Nat} {v : Word} (h : W lcore reg) :
    Keeps (Confined p W) (msrWrite p lcore reg v) := by
  refine Keeps.bind Confined.isFrame (msrAccess_confined fun k r v hk => ?_) fun _ s => ?_
  · cases hk
    exact h
  · exact ⟨⟨[], rfl, by simp⟩, fun l hl => Function.update_of_ne (hl lcore reg h) _ _⟩

end Confined

/-! ## The banks -/

/-- The registers of the L3 classes below the count: two for each class under CDP. -/
def l3Bank (c : CapL3ca) (reg : Nat) : Prop :=
  ∃ k < c.numClasses, reg = l3caReg c.cdpOn k
    ∨ c.cdpOn = true ∧ reg = (l3caReg true k + 1) % 2 ^ 32

def l2Bank (c : CapL2ca) (reg : Nat) : Prop := ∃ k < c.numClasses, reg = l2caReg k

def mbaBank (c : CapMba) (reg : Nat) : Prop := ∃ k < c.numClasses, reg = mbaReg k

section Own

variable (p : Platform)

/-- What a setter of the technology with capability `type` owns: its bank, through the cores that
`at_` selects. -/
def Own {α : Type} (type : CapItem → Option α) (bank : α → Nat → Prop) (at_ : CoreInfo → Prop)
    (lcore reg : Nat) : Prop :=
  (∃ k ∈ p.cpu.cores, k.lcore = lcore ∧ at_ k) ∧ ∃ c, p.capGetType type = .ok c ∧ bank c reg

def L3Own (socket : Nat) : Nat → Nat → Prop :=
  Own p CapItem.l3ca? l3Bank fun k => k.socket = socket

def L2Own (l2id : Nat) : Nat → Nat → Prop :=
  Own p CapItem.l2ca? l2Bank fun k => k.l2Id = l2id

def MbaOwn (socket : Nat) : Nat → Nat → Prop :=
  Own p CapItem.mba? mbaBank fun k => k.socket = socket

end Own

/-! ## L2 and MBA -/

section L2Mba

variable {p : Platform}

theorem hwL2caSet_confined (l2id : Nat) (ca : List L2ca) :
    Keeps (Confined p (L2Own p l2id)) (hwL2caSet p l2id ca) := by
  refine keeps_ofExcept_bind Confined.isFrame fun n hn => ?_
  obtain ⟨c, hc, rfl⟩ := l2caGetCosNum_ok.1 hn
  refine keeps_failIf_bind Confined.isFrame fun hids => ?_
  refine keeps_ofExcept_bind Confined.isFrame fun core hcore => ?_
  refine Keeps.forM Confined.isFrame fun e he => msrWrite_confined ?_
  exact ⟨CpuInfo.getOneByL2id_ok hcore, c, hc, e.classId,
    Nat.not_le.1 fun hle => hids ⟨e, he, hle⟩, rfl⟩

theorem hwMbaSet_confined (socket : Nat) (requested : List Mba) (wantActual : Bool) :
    Keeps (Confined p (MbaOwn p socket)) (hwMbaSet p socket requested wantActual) := by
  refine keeps_ofExcept_bind Confined.isFrame fun c hc => ?_
  refine keeps_failIf_bind Confined.isFrame fun _ => ?_
  refine keeps_failIf_bind Confined.isFrame fun hids => ?_
  refine keeps_ofExcept_bind Confined.isFrame fun core hcore => ?_
  have hwrite : ∀ r ∈ requested, Keeps (Confined p (MbaOwn p socket)) (mbaWrite p c core r) :=
    fun r hr => msrWrite_confined ⟨CpuInfo.getOneCore_ok hcore, c, hc, r.classId,
      Nat.not_le.1 fun hle => hids ⟨r, hr, hle⟩, rfl⟩
  split_ifs
  · refine Keeps.map Confined.isFrame (Keeps.mapM Confined.isFrame fun r hr => ?_)
    exact Keeps.bind Confined.isFrame (hwrite r hr) fun _ =>
      Keeps.bind Confined.isFrame msrRead_confined fun _ => Keeps.pure Confined.isFrame _
  · exact Keeps.bind Confined.isFrame (Keeps.forM Confined.isFrame hwrite) fun _ =>
      Keeps.pure Confined.isFrame _

end L2Mba

/-! ## L3 -/

/-- The entries the L3 setter gets to: with CDP off it stops at the first code and data pair. -/
def l3Reached (c : CapL3ca) (ca : List L3ca) : List L3ca :=
  if c.cdpOn then ca else ca.takeWhile fun e => !e.cdp

/-- Unless the call is rejected before it writes anything, every entry reached names a class below
the count; under CDP register numbers are twice the class id and wrap at half the range. -/
def L3InBank (p : Platform) (socket : Nat) (ca : List L3ca) : Prop :=
  ∀ c, p.capGetType CapItem.l3ca? = .ok c → ca.length ≤ c.numClasses →
    (∃ k ∈ p.cpu.cores, k.socket = socket) →
    ∀ e ∈ l3Reached c ca, e.classId % (if c.cdpOn then 2 ^ 31 else 2 ^ 32) < c.numClasses

section Reg

variable {c : CapL3ca} {classId : Nat}

/-- The first register of a class lies in the bank only for a class below the count. -/
theorem l3Bank_reg : l3Bank c (l3caReg c.cdpOn classId)
    ↔ classId % (if c.cdpOn then 2 ^ 31 else 2 ^ 32) < c.numClasses := by
  unfold l3Bank l3caReg msrL3caMaskStart
  cases c.cdpOn
  · simp only [Bool.false_eq_true, if_false, false_and, or_false]
    constructor
    · rintro ⟨k, hk, hreg⟩
      omega
    · exact fun h => ⟨classId % 2 ^ 32, h, by omega⟩
  · simp only [if_true, true_and]
    constructor
    · rintro ⟨k, hk, hreg | hreg⟩ <;> omega
    · exact fun h => ⟨classId % 2 ^ 31, h, Or.inl (by omega)⟩

theorem l3Bank_codeReg (hcdp : c.cdpOn = true) (h : classId % 2 ^ 31 < c.numClasses) :
    l3Bank c ((l3caReg true classId + 1) % 2 ^ 32) := by
  refine ⟨classId % 2 ^ 31, h, Or.inr ⟨hcdp, ?_⟩⟩
  simp only [l3caReg, msrL3caMaskStart, if_true]
  omega

end Reg

section L3

variable {p : Platform}

theorem l3caWrite_throw {core : Nat} {e : L3ca} (h : e.cdp = true) :
    l3caWrite p false core e = throw .error := by
  rcases e with ⟨classId, m | ⟨d, m⟩⟩
  · simp [L3ca.cdp] at h
  · rfl

/-- An entry in the bank is written inside it. -/
theorem l3caWrite_confined {socket core : Nat} {c : CapL3ca} {e : L3ca}
    (hcore : p.cpu.getOneCore socket = .ok core) (hc : p.capGetType CapItem.l3ca? = .ok c)
    (h : e.classId % (if c.cdpOn then 2 ^ 31 else 2 ^ 32) < c.numClasses) :
    Keeps (Confined p (L3Own p socket)) (l3caWrite p c.cdpOn core e) := by
  have hown : ∀ reg, l3Bank c reg → L3Own p socket core reg :=
    fun reg hreg => ⟨CpuInfo.getOneCore_ok hcore, c, hc, hreg⟩
  have hreg := l3Bank_reg.2 h
  unfold l3caWrite
  split_ifs with hcdp
  · rw [hcdp] at hreg
    rw [if_pos hcdp] at h
    exact Keeps.bind Confined.isFrame (msrWrite_confined (hown _ hreg)) fun _ =>
      msrWrite_confined (hown _ (l3Bank_codeReg hcdp h))
  · rw [Bool.not_eq_true] at hcdp
    rw [hcdp] at hreg
    rcases e with ⟨classId, m | ⟨d, m⟩⟩
    · exact msrWrite_confined (hown _ hreg)
    · exact Keeps.throw Confined.isFrame _

theorem hwL3caSet_confined {socket : Nat} {ca : List L3ca} (h : L3InBank p socket ca) :
    Keeps (Confined p (L3Own p socket)) (hwL3caSet p socket ca) := by
  refine keeps_ofExcept_bind Confined.isFrame fun n hn => ?_
  obtain ⟨c, hc, rfl⟩ := l3caGetCosNum_ok.1 hn
  refine keeps_failIf_bind Confined.isFrame fun hlen => ?_
  refine keeps_ofExcept_bind Confined.isFrame fun cdpOn hcdp => ?_
  obtain ⟨c', hc', rfl⟩ := l3caCdpEnabled_ok.1 hcdp
  rw [hc] at hc'
  cases hc'
  refine keeps_ofExcept_bind Confined.isFrame fun core hcore => ?_
  obtain ⟨k, hk, -, hsock⟩ := CpuInfo.getOneCore_ok hcore
  have hin := h c hc (Nat.not_lt.1 hlen) ⟨k, hk, hsock⟩
  unfold l3Reached at hin
  by_cases hon : c.cdpOn = true
  · rw [if_pos hon] at hin
    exact Keeps.forM Confined.isFrame fun e he => l3caWrite_confined hcore hc (hin e he)
  · rw [if_neg hon] at hin
    refine keeps_forM_takeWhile Confined.isFrame (fun e he => ?_) fun e he =>
      l3caWrite_confined hcore hc (hin e he)
    rw [Bool.not_eq_true] at hon
    rw [hon]
    exact ⟨.error, l3caWrite_throw (by simpa using he)⟩

/-! ## What the L3 setter attempts -/

/-- The accesses recorded in `s` are still there in `t`. -/
def Grows (s t : Msr) : Prop := s.trace <:+ t.trace

theorem Grows.isFrame : Frame Grows := ⟨fun _ => List.suffix_rfl, List.IsSuffix.trans⟩

theorem Confined.grows {W : Nat → Nat → Prop} {s t : Msr} (h : Confined p W s t) : Grows s t := by
  obtain ⟨⟨new, hnew, -⟩, -⟩ := h
  exact ⟨new, hnew.symm⟩

/-- The access `a` was made between `s` and `t`. -/
def Made (a : Access) (s t : Msr) : Prop := ∃ new, t.trace = new ++ s.trace ∧ a ∈ new

theorem Made.of_grows {a : Access} {s s' t t' : Msr} (h : Made a s' t) (hs : Grows s s')
    (ht : Grows t t') : Made a s t' := by
  obtain ⟨new, hnew, ha⟩ := h
  obtain ⟨n₁, h₁⟩ := hs
  obtain ⟨n₂, h₂⟩ := ht
  exact ⟨n₂ ++ new ++ n₁, by simp [← h₂, hnew, ← h₁], by simp [ha]⟩

theorem Confined.own_of_made {W : Nat → Nat → Prop} {s t : Msr} {lcore reg : Nat} {v : Word}
    (h : Confined p W s t) (hm : Made (.wr lcore reg v) s t) : W lcore reg := by
  obtain ⟨⟨new, hnew, hw⟩, -⟩ := h
  obtain ⟨new', hnew', ha⟩ := hm
  rw [hnew, List.append_left_inj] at hnew'
  exact hw lcore reg v (hnew' ▸ ha)

theorem msrWrite_grows {lcore reg : Nat} {v : Word} : Keeps Grows (msrWrite p lcore reg v) :=
  (msrWrite_confined (p := p) (W := fun _ _ => True) trivial).mono Confined.grows

theorem l3caWrite_grows (cdpOn : Bool) (core : Nat) (e : L3ca) :
    Keeps Grows (l3caWrite p cdpOn core e) := by
  unfold l3caWrite
  split_ifs
  · exact Keeps.bind Grows.isFrame msrWrite_grows fun _ => msrWrite_grows
  · rcases e with ⟨classId, m | ⟨d, m⟩⟩
    · exact msrWrite_grows
    · exact Keeps.throw Grows.isFrame _

theorem msrWrite_made (hp : p.Reliable) {lcore : Nat} (hl : lcore ∈ p.cpu.lcores) (reg : Nat)
    (v : Word) (s : Msr) : Made (.wr lcore reg v) s (final ((msrWrite p lcore reg v).run s)) := by
  rw [msrWrite_run hp hl]
  exact ⟨[.wr lcore reg v], rfl, List.mem_singleton_self _⟩

theorem l3caWrite_made (hp : p.Reliable) {cdpOn : Bool} {core : Nat} (hl : core ∈ p.cpu.lcores)
    {e : L3ca} (he : cdpOn = true ∨ e.cdp = false) (s : Msr) :
    ∃ v, Made (.wr core (l3caReg cdpOn e.classId) v) s
      (final ((l3caWrite p cdpOn core e).run s)) := by
  unfold l3caWrite
  cases cdpOn
  · rcases e with ⟨classId, m | ⟨d, m⟩⟩
    · exact ⟨m, msrWrite_made hp hl _ _ s⟩
    · simp [L3ca.cdp] at he
  · refine ⟨e.u.dataMask, (msrWrite_made hp hl _ _ s).of_grows (Grows.isFrame.refl s) ?_⟩
    exact keeps_after_bind Grows.isFrame (fun _ => msrWrite_grows) s

theorem l3caWrite_total (hp : p.Reliable) {cdpOn : Bool} {core : Nat} (hl : core ∈ p.cpu.lcores)
    {e : L3ca} (he : cdpOn = true ∨ e.cdp = false) : Total (l3caWrite p cdpOn core e) := by
  unfold l3caWrite
  cases cdpOn
  · rcases e with ⟨classId, m | ⟨d, m⟩⟩
    · exact fun s => ⟨_, _, msrWrite_run hp hl⟩
    · simp [L3ca.cdp] at he
  · exact Total.bind (fun s => ⟨_, _, msrWrite_run hp hl⟩) fun _ s => ⟨_, _, msrWrite_run hp hl⟩

/-- An entry reached splits the table after entries that are all written. -/
theorem l3Reached_split {c : CapL3ca} {ca : List L3ca} {e : L3ca} (he : e ∈ l3Reached c ca) :
    (c.cdpOn = true ∨ e.cdp = false) ∧ ∃ pre post, ca = pre ++ e :: post
      ∧ ∀ a ∈ pre, c.cdpOn = true ∨ a.cdp = false := by
  unfold l3Reached at he
  split_ifs at he with hon
  · obtain ⟨pre, post, rfl⟩ := List.append_of_mem he
    exact ⟨Or.inl hon, pre, post, rfl, fun _ _ => Or.inl hon⟩
  · have hall : ∀ a ∈ ca.takeWhile fun e => !e.cdp, a.cdp = false := fun a ha => by
      simpa using List.mem_takeWhile_imp ha
    refine ⟨Or.inr (hall e he), ?_⟩
    obtain ⟨pre, post, hpp⟩ := List.append_of_mem he
    refine ⟨pre, post ++ ca.dropWhile fun e => !e.cdp, ?_, fun a ha => Or.inr (hall a ?_)⟩
    · rw [← List.cons_append, ← List.append_assoc, ← hpp, List.takeWhile_append_dropWhile]
    · rw [hpp]
      exact List.mem_append_left _ ha

/-- Where no access fails, the setter attempts a write of every entry it reaches. -/
theorem hwL3caSet_made (hp : p.Reliable) {socket core : Nat} {c : CapL3ca} {ca : List L3ca}
    {e : L3ca} (hready : L3Ready p socket ca c core) (he : e ∈ l3Reached c ca) (s : Msr) :
    ∃ v, Made (.wr core (l3caReg c.cdpOn e.classId) v) s
      (final ((hwL3caSet p socket ca).run s)) := by
  have hl : core ∈ p.cpu.lcores := CpuInfo.getOneCore_mem hready.core
  rw [hready.run]
  obtain ⟨hecdp, pre, post, rfl, hpre⟩ := l3Reached_split he
  obtain ⟨_, t, ht⟩ := Total.forM (fun a ha => l3caWrite_total hp hl (hpre a ha)) s
  obtain ⟨v, hv⟩ := l3caWrite_made hp hl hecdp t
  have hgrow : Grows s t :=
    (Keeps.forM Grows.isFrame fun a _ => l3caWrite_grows c.cdpOn core a).of_ok ht
  refine ⟨v, hv.of_grows hgrow ?_⟩
  rw [forM_append_ok ht, List.forM_eq_forM, List.forM_cons]
  exact keeps_after_bind Grows.isFrame (fun _ =>
    Keeps.forM Grows.isFrame fun a _ => l3caWrite_grows c.cdpOn core a) t

theorem l3InBank_of_confined (hp : p.Reliable) {socket : Nat} {ca : List L3ca} {s : Msr}
    (h : Confined p (L3Own p socket) s (final ((hwL3caSet p socket ca).run s))) :
    L3InBank p socket ca := by
  rintro c hc hlen ⟨k, hk, hsock⟩ e he
  obtain ⟨core, hcore⟩ := CpuInfo.getOneCore_of_mem hk
  rw [hsock] at hcore
  obtain ⟨v, hv⟩ := hwL3caSet_made hp ⟨hc, hlen, hcore⟩ he s
  obtain ⟨-, c', hc', hbank⟩ := h.own_of_made hv
  rw [hc] at hc'
  cases hc'
  exact l3Bank_reg.1 hbank

end L3

/-! ## All three setters -/

/-- L2 and MBA requests are confined to their bank whatever they ask for. An L3 request is when its
entries name classes below the count, and, where accesses succeed, only then. -/
theorem hwSet_confined (p : Platform) :
    (∀ socket ca, (L3InBank p socket ca →
        ∀ s, Confined p (L3Own p socket) s (final ((hwL3caSet p socket ca).run s)))
      ∧ (p.Reliable →
        ∀ s, Confined p (L3Own p socket) s (final ((hwL3caSet p socket ca).run s)) →
          L3InBank p socket ca))
    ∧ (∀ l2id ca s, Confined p (L2Own p l2id) s (final ((hwL2caSet p l2id ca).run s)))
    ∧ ∀ socket requested wantActual s,
      Confined p (MbaOwn p socket) s (final ((hwMbaSet p socket requested wantActual).run s)) :=
  ⟨fun _ _ => ⟨hwL3caSet_confined, fun hp _ => l3InBank_of_confined hp⟩, hwL2caSet_confined,
    hwMbaSet_confined⟩

def bankPlatform : Platform := smallPlatform [⟨true, .l3ca ⟨4, 11, 0, false, false⟩⟩]

/-- Class 128 of a platform with four classes is accepted by the interface and written to the
first register of the L2 bank. -/
theorem hwL3caSet_leaves_bank : pqosL3caSet (hwBackend bankPlatform) 0 [⟨128, .ways 1⟩]
      = hwL3caSet bankPlatform 0 [⟨128, .ways 1⟩]
    ∧ ¬ ∀ s, Confined bankPlatform (L3Own bankPlatform 0) s
      (final ((hwL3caSet bankPlatform 0 [⟨128, .ways 1⟩]).run s)) := by
  refine ⟨rfl, fun h => ?_⟩
  have hmade : Made (.wr 0 0xD10 1) ⟨fun _ => 0, []⟩
      (final ((hwL3caSet bankPlatform 0 [⟨128, .ways 1⟩]).run ⟨fun _ => 0, []⟩)) :=
    ⟨[.wr 0 0xD10 1], rfl, List.mem_singleton_self _⟩
  obtain ⟨-, c, hc, k, hk, hreg⟩ := (h ⟨fun _ => 0, []⟩).own_of_made hmade
  cases hc
  simp only [l3caReg, msrL3caMaskStart] at hk hreg
  rcases hreg with hreg | ⟨hcdp, -⟩
  · rw [if_neg (by decide)] at hreg
    omega
  · cases hcdp


end Pqos
