import Pqos.Proofs.Rmid

/-!
# A start that fails

A start programs the core's counters one access after another, and what the machine accepted before
it refused one has taken effect. Going back, the start undoes its associations and nothing else.
-/

namespace Pqos

open Prog

/-! ## Accesses in a row -/

section Accesses

/-- The effect of an access that the machine accepts. -/
def Msr.make (cpu : CpuInfo) (s : Msr) : Access → Msr
  | .rd lcore reg => s.log (.rd lcore reg)
  | .wr lcore reg val => (s.log (.wr lcore reg val)).write (cpu.loc lcore reg) val

def Platform.refuses (p : Platform) (hist : List Access) (a : Access) : Prop :=
  p.cpu.maxcores ≤ a.lcore ∨ p.fails hist a = true

instance (p : Platform) (hist : List Access) (a : Access) : Decidable (p.refuses hist a) :=
  inferInstanceAs (Decidable (_ ∨ _))

/-- The accesses of a list before the first that the machine refuses. -/
def Platform.accepted (p : Platform) (hist : List Access) : List Access → List Access
  | [] => []
  | a :: l => if p.refuses hist a then [] else a :: p.accepted (a :: hist) l

/-- A program that makes the accesses of a list one after another, and stops where one is
refused. -/
def Straight {α : Type} (p : Platform) (l : List Access) (x : EStateM Err Msr α) : Prop :=
  ∀ s, (p.accepted s.trace l = l ∧ ∃ a, x.run s = .ok a (l.foldl (Msr.make p.cpu) s))
    ∨ p.accepted s.trace l ≠ l ∧ ∃ e t, x.run s = .error e t
      ∧ t.mem = ((p.accepted s.trace l).foldl (Msr.make p.cpu) s).mem

variable {p : Platform} {α β : Type} {l l' : List Access} {x : EStateM Err Msr α}
  {f : α → EStateM Err Msr β}

theorem make_trace (l : List Access) (s : Msr) :
    (l.foldl (Msr.make p.cpu) s).trace = l.reverse ++ s.trace := by
  induction l generalizing s with
  | nil => rfl
  | cons a l ih =>
    rw [List.foldl_cons, ih, List.reverse_cons, List.append_assoc]
    cases a <;> rfl

theorem accepted_append (hist : List Access) : p.accepted hist (l ++ l')
    = if p.accepted hist l = l then l ++ p.accepted (l.reverse ++ hist) l'
      else p.accepted hist l := by
  induction l generalizing hist with
  | nil => rfl
  | cons a l ih =>
    rw [List.cons_append, Platform.accepted, Platform.accepted]
    by_cases hr : p.refuses hist a
    · rw [if_pos hr, if_pos hr, if_neg (List.cons_ne_nil a l).symm]
    · rw [if_neg hr, if_neg hr, ih]
      have hiff : a :: p.accepted (a :: hist) l = a :: l ↔ p.accepted (a :: hist) l = l := by simp
      rw [if_congr hiff rfl rfl]
      split_ifs
      · rw [List.reverse_cons, List.append_assoc]
        rfl
      · rfl

theorem accepted_le (hist l : List Access) : p.accepted hist l <+: l := by
  induction l generalizing hist with
  | nil => exact List.prefix_refl _
  | cons a l ih =>
    rw [Platform.accepted]
    split_ifs
    · exact List.nil_prefix
    · exact List.cons_prefix_cons.2 ⟨rfl, ih _⟩

theorem Straight.pure (a : α) : Straight p [] (pure a : EStateM Err Msr α) :=
  fun _ => Or.inl ⟨rfl, a, rfl⟩

theorem Straight.bind (hx : Straight p l x) (hf : ∀ a, Straight p l' (f a)) :
    Straight p (l ++ l') (x >>= f) := by
  intro s
  rw [accepted_append]
  rcases hx s with ⟨hl, a, hrun⟩ | ⟨hl, e, t, hrun, hmem⟩
  · rw [if_pos hl, bind_of_ok hrun, List.foldl_append, List.foldl_append, ← make_trace (p := p)]
    simp only [ne_eq, List.append_right_inj]
    exact hf a (l.foldl (Msr.make p.cpu) s)
  · rw [if_neg hl]
    refine Or.inr ⟨fun h => hl ?_, e, t, bind_of_error hrun, hmem⟩
    have hle := (accepted_le (p := p) s.trace l).length_le
    rw [h, List.length_append] at hle
    rw [List.length_eq_zero_iff.1 (by omega : l'.length = 0), List.append_nil] at h
    exact h

theorem Straight.forM {g : α → List Access} {f : α → EStateM Err Msr PUnit} {as : List α}
    (hf : ∀ a ∈ as, Straight p (g a) (f a)) : Straight p (as.flatMap g) (as.forM f) := by
  induction as with
  | nil => exact Straight.pure _
  | cons a as ih =>
    rw [List.flatMap_cons, List.forM_eq_forM, List.forM_cons]
    exact (hf a List.mem_cons_self).bind fun _ =>
      ih fun b hb => hf b (List.mem_cons_of_mem a hb)

theorem Straight.unless (c : Prop) [Decidable c] {x : EStateM Err Msr PUnit} (hx : Straight p l x) :
    Straight p (if c then [] else l) (unless c do x) := by
  split_ifs
  · exact Straight.pure _
  · exact hx

theorem msrAccess_cases (a : Access) (s : Msr) :
    (¬ p.refuses s.trace a ∧ (msrAccess p a).run s = .ok () (s.log a))
      ∨ p.refuses s.trace a ∧ ∃ e t, (msrAccess p a).run s = .error e t ∧ t.mem = s.mem := by
  by_cases hr : p.refuses s.trace a
  · refine Or.inr ⟨hr, ?_⟩
    rcases hrun : (msrAccess p a).run s with ⟨u, t⟩ | ⟨e, t⟩
    · unfold msrAccess at hrun
      simp only [bind_ok, failIf_ok] at hrun
      obtain ⟨_, _, ⟨hcore, rfl⟩, s', _, hs, _, _, -, hfail, -⟩ := hrun
      cases hs
      exact absurd hr (not_or.2 ⟨hcore, hfail⟩)
    · exact ⟨e, t, rfl, msrAccess_error hrun⟩
  · obtain ⟨hcore, hfail⟩ := not_or.1 hr
    refine Or.inl ⟨hr, ?_⟩
    unfold msrAccess
    rw [bind_of_ok (a := ()) (failIf_ok.2 ⟨hcore, rfl⟩), get_bind, set_bind]
    exact failIf_ok.2 ⟨hfail, rfl⟩

/-- One access, and what follows from it without another. -/
theorem Straight.access {a : Access} {g : Unit → EStateM Err Msr α}
    (hg : ∀ s : Msr, ∃ b, (g ()).run (s.log a) = .ok b (s.make p.cpu a)) :
    Straight p [a] (msrAccess p a >>= g) := by
  intro s
  rcases msrAccess_cases (p := p) a s with ⟨hr, hrun⟩ | ⟨hr, e, t, hrun, hmem⟩
  · obtain ⟨b, hb⟩ := hg s
    exact Or.inl ⟨if_neg hr, b, (bind_of_ok hrun).trans hb⟩
  · have hnone : p.accepted s.trace [a] = [] := if_pos hr
    refine Or.inr ⟨by rw [hnone]; exact (List.cons_ne_nil a []).symm, e, t, bind_of_error hrun, ?_⟩
    rw [hnone]
    exact hmem

theorem msrRead_straight (lcore reg : Nat) : Straight p [.rd lcore reg] (msrRead p lcore reg) :=
  Straight.access fun _ => ⟨_, rfl⟩

theorem msrWrite_straight (lcore reg : Nat) (val : Word) :
    Straight p [.wr lcore reg val] (msrWrite p lcore reg val) :=
  Straight.access fun _ => ⟨_, rfl⟩

end Accesses

/-! ## Setting the counters up -/

section Counters

variable {p : Platform} {event : MonEvent} {core : Nat} {cores : List Nat}

/-- The accesses that set a core's counters up. The last one enables them. -/
def programAccesses (event : MonEvent) (core : Nat) : List Access :=
  [.wr core msrPerfGlobalCtrl 0#64]
    ++ ((if event &&& perfEventIpc = 0 then [] else [.wr core msrInstRetiredAny 0#64]
      ++ ([.wr core msrCpuUnhaltedRef 0#64] ++ [.wr core msrFixedCtrCtrl 0x303#64]))
    ++ ((if event &&& perfEventLlcMiss = 0 then [] else [.wr core msrPmc0 0#64]
      ++ [.wr core msrPerfEvtSel0
        (0x2E#64 ||| (0x41#64 <<< 8) ||| (1#64 <<< 16) ||| (1#64 <<< 17) ||| (1#64 <<< 22))])
    ++ [.wr core msrPerfGlobalCtrl (globalCtrlMask event)]))

/-- The accesses that set the counters of cores up. -/
def perfAccesses (event : MonEvent) (cores : List Nat) : List Access :=
  if event &&& perfEvents = 0 then []
  else (cores.flatMap fun core => [.rd core msrPerfGlobalCtrl] ++ [])
    ++ cores.flatMap (programAccesses event)

theorem ia32PerfCounterProgram_straight (event : MonEvent) (core : Nat) :
    Straight p (programAccesses event core) (ia32PerfCounterProgram p event core) := by
  refine (msrWrite_straight _ _ _).bind fun _ => Straight.bind ?_ fun _ => Straight.bind ?_ fun _ =>
    msrWrite_straight _ _ _
  · exact Straight.unless _ ((msrWrite_straight _ _ _).bind fun _ =>
      (msrWrite_straight _ _ _).bind fun _ => msrWrite_straight _ _ _)
  · exact Straight.unless _ ((msrWrite_straight _ _ _).bind fun _ => msrWrite_straight _ _ _)

theorem ia32PerfCounterStart_straight (event : MonEvent) (cores : List Nat) :
    Straight p (perfAccesses event cores) (ia32PerfCounterStart p cores event) :=
  Straight.unless _ ((Straight.forM fun core _ =>
    (msrRead_straight core msrPerfGlobalCtrl).bind fun _ => Straight.pure _).bind fun _ =>
      Straight.forM fun core _ => ia32PerfCounterProgram_straight event core)

end Counters

/-! ## What is left running -/

section Global

variable {p : Platform} {cpu : CpuInfo} {event : MonEvent} {core : Nat} {cores : List Nat}
  {s t : Msr}

/-- The core's global control, a bit for each counter that is enabled. -/
def Msr.globalCtrl (s : Msr) (core : Nat) : Word := s.mem (.core core msrPerfGlobalCtrl)

def globalWrite (core : Nat) : Access → Option Word
  | .rd _ _ => none
  | .wr lcore reg val => if lcore = core ∧ reg = msrPerfGlobalCtrl then some val else none

theorem CpuInfo.loc_global {lcore reg : Nat} :
    cpu.loc lcore reg = .core core msrPerfGlobalCtrl ↔ lcore = core ∧ reg = msrPerfGlobalCtrl := by
  unfold CpuInfo.loc
  constructor
  · intro h
    split at h
    · exact Loc.core.inj h
    · split_ifs at h
      exact Loc.core.inj h
  · rintro ⟨rfl, rfl⟩
    split
    · rfl
    · rw [if_neg (by decide), if_pos (by decide)]

theorem make_globalCtrl (a : Access) :
    (s.make cpu a).globalCtrl core = (globalWrite core a).getD (s.globalCtrl core) := by
  cases a with
  | rd lcore reg => rfl
  | wr lcore reg val =>
    unfold Msr.make Msr.globalCtrl
    rw [Msr.write_mem, Msr.log_mem]
    by_cases h : lcore = core ∧ reg = msrPerfGlobalCtrl
    · rw [CpuInfo.loc_global.2 h, Function.update_self, globalWrite, if_pos h, Option.getD_some]
    · rw [Function.update_of_ne fun heq => h (CpuInfo.loc_global.1 heq.symm), globalWrite, if_neg h,
        Option.getD_none]

/-- After accesses the global control is what the last of them wrote to it. -/
theorem foldl_globalCtrl (l : List Access) : (l.foldl (Msr.make cpu) s).globalCtrl core
    = (l.filterMap (globalWrite core)).getLast?.getD (s.globalCtrl core) := by
  induction l generalizing s with
  | nil => rfl
  | cons a l ih =>
    rw [List.foldl_cons, ih, make_globalCtrl]
    cases ha : globalWrite core a with
    | none => rw [List.filterMap_cons_none ha, Option.getD_none]
    | some v => rw [List.filterMap_cons_some ha, List.getLast?_cons, Option.getD_some,
        Option.getD_some]

/-- The last write to the core's global control among the accesses is the one that enables. -/
def LeftRunning (event : MonEvent) (core : Nat) (l : List Access) : Prop :=
  (l.filterMap (globalWrite core)).getLast? = some (globalCtrlMask event)

instance (l : List Access) : Decidable (LeftRunning event core l) :=
  inferInstanceAs (Decidable (_ = _))

theorem globalWrite_other {lcore reg : Nat} {val : Word} (h : reg ≠ msrPerfGlobalCtrl) :
    globalWrite core (.wr lcore reg val) = none :=
  if_neg fun hg => h hg.2

/-- Setting up writes no value to a global control but 0 and the mask of the event. -/
theorem perfAccesses_globalWrite {a : Access} (ha : a ∈ perfAccesses event cores) {v : Word}
    (hv : globalWrite core a = some v) : v = 0#64 ∨ v = globalCtrlMask event := by
  have hglobal : ∀ lcore val, a = .wr lcore msrPerfGlobalCtrl val → v = val := by
    rintro lcore val rfl
    change (if _ then some val else none) = some v at hv
    split_ifs at hv
    exact (Option.some.inj hv).symm
  have hother : ∀ lcore reg val, reg ≠ msrPerfGlobalCtrl → a ≠ .wr lcore reg val := by
    rintro lcore reg val hreg rfl
    rw [globalWrite_other hreg] at hv
    cases hv
  unfold perfAccesses at ha
  split_ifs at ha
  · cases ha
  rcases List.mem_append.1 ha with ha | ha
  · obtain ⟨c, -, ha⟩ := List.mem_flatMap.1 ha
    rw [List.append_nil, List.mem_singleton] at ha
    rw [ha] at hv
    cases hv
  · obtain ⟨c, -, ha⟩ := List.mem_flatMap.1 ha
    unfold programAccesses at ha
    simp only [List.mem_append, List.mem_singleton] at ha
    rcases ha with ha | ha | ha | ha
    · exact Or.inl (hglobal _ _ ha)
    · split_ifs at ha
      · cases ha
      · simp only [List.mem_append, List.mem_singleton] at ha
        rcases ha with ha | ha | ha <;> exact absurd ha (hother _ _ _ (by decide))
    · split_ifs at ha
      · cases ha
      · simp only [List.mem_append, List.mem_singleton] at ha
        rcases ha with ha | ha <;> exact absurd ha (hother _ _ _ (by decide))
    · exact Or.inr (hglobal _ _ ha)

/-- After a part of the accesses that set counters up, a counter is on that was off if and only if
the core was left running and had not had all of its counters on. -/
theorem foldl_enabled_iff {l : List Access} (hl : l <+: perfAccesses event cores) :
    (l.foldl (Msr.make cpu) s).globalCtrl core &&& ~~~ s.globalCtrl core = 0#64
      ↔ (LeftRunning event core l → globalCtrlMask event &&& ~~~ s.globalCtrl core = 0#64) := by
  rw [foldl_globalCtrl]
  unfold LeftRunning
  rcases hlast : (l.filterMap (globalWrite core)).getLast? with _ | v
  · simp
  · rw [Option.getD_some]
    obtain ⟨a, ha, hv⟩ := List.mem_filterMap.1 (List.mem_of_getLast? hlast)
    rcases perfAccesses_globalWrite (hl.subset ha) hv with rfl | rfl
    · simp only [BitVec.zero_and, Option.some.injEq, true_iff]
      intro hmask
      rw [← hmask, BitVec.zero_and]
    · simp

end Global

/-! ## The start -/

section Start

variable {p : Platform} {event : MonEvent} {core : Nat} {cores : List Nat} {ctxs : List PollCtx}
  {s t : Msr} {g : Nat} {σ σ' : MonState} {e : Err}

/-- The RMIDs are as before, and no counter is on that was off. -/
structure StartUndone (s t : Msr) : Prop where
  rmid : ∀ core, t.rmid core = s.rmid core
  counters : ∀ core, t.globalCtrl core &&& ~~~ s.globalCtrl core = 0#64

/-- The writes that undo a start succeed. -/
def UndoSucceeds (p : Platform) (cores : List Nat) (event : MonEvent) (s : Msr) : Prop :=
  ∀ ctxs s₁ e s₂, (cores.foldlM (monCtx p event) []).run s = .ok ctxs s₁ →
    (startBody p cores event ctxs).run s₁ = .error e s₂ →
    ∃ s₃, (startUndo p cores).run s₂ = .ok () s₃

/-- Where a start gets as far as the counters, the machine accepts so much of their setting up that
it leaves no core running whose counters were not all on. -/
def NoneLeftRunning (p : Platform) (cores : List Nat) (event : MonEvent) (s : Msr) : Prop :=
  EventsListed p event → ∀ ctxs s₁, (cores.foldlM (monCtx p event) []).run s = .ok ctxs s₁ →
    ∀ core, LeftRunning event core (p.accepted s₁.trace (perfAccesses event cores)) →
      globalCtrlMask event &&& ~~~ s.globalCtrl core = 0#64

/-- Associations change no global control. -/
theorem monAssocSet_keepsGlobal (lcore rmid : Nat) :
    Keeps (fun s t : Msr => t.globalCtrl = s.globalCtrl) (monAssocSet p lcore rmid) := by
  have hF : Frame fun s t : Msr => t.globalCtrl = s.globalCtrl := Frame.eq Msr.globalCtrl
  have hmem : ∀ {s t : Msr}, t.mem = s.mem → t.globalCtrl = s.globalCtrl := by
    intro s t h
    funext core
    exact congrFun h _
  refine Keeps.bind hF (msrRead_keepsMem.mono hmem) fun v s => ?_
  rcases hw : (msrWrite p lcore msrAssoc (withRmid v rmid)).run s with ⟨_, t⟩ | ⟨e, t⟩
  · rw [final_ok, msrWrite_ok hw]
    funext core
    exact (make_globalCtrl (.wr lcore msrAssoc _)).trans
      (by rw [globalWrite_other (by decide), Option.getD_none])
  · exact hmem (msrWrite_error hw)

theorem startUndo_keepsGlobal :
    Keeps (fun s t : Msr => t.globalCtrl = s.globalCtrl) (startUndo p cores) :=
  Keeps.tryAll (Frame.eq Msr.globalCtrl) fun core _ => monAssocSet_keepsGlobal core 0

theorem monAssocCtx_keepsGlobal (lcore : Nat) :
    Keeps (fun s t : Msr => t.globalCtrl = s.globalCtrl) (monAssocCtx p ctxs lcore) :=
  have hF : Frame fun s t : Msr => t.globalCtrl = s.globalCtrl := Frame.eq Msr.globalCtrl
  Keeps.bind hF (Keeps.ofExcept hF _) fun _ => Keeps.bind hF (Keeps.ofOption hF _ _) fun _ =>
    monAssocSet_keepsGlobal _ _

/-- A start that fails behind its checks leaves the global controls as the accepted part of the
setting up does. -/
theorem startBody_globalCtrl (h : (startBody p cores event ctxs).run s = .error e t) :
    t.globalCtrl = ((p.accepted s.trace (perfAccesses event cores)).foldl
      (Msr.make p.cpu) s).globalCtrl := by
  rcases ia32PerfCounterStart_straight (p := p) event cores s with ⟨hall, a, hrun⟩ |
    ⟨-, e', u, hrun, hmem⟩
  · rw [hall]
    have hassoc := (bind_of_ok hrun).symm.trans h
    exact (Keeps.forM (Frame.eq Msr.globalCtrl) fun core _ =>
      monAssocCtx_keepsGlobal core).of_error hassoc
  · obtain ⟨rfl, rfl⟩ := EStateM.Result.error.inj ((bind_of_error hrun).symm.trans h)
    funext core
    exact congrFun hmem _

/-- A start that fails, and goes back without failing, has undone what it did if and only if it left
no core running. -/
theorem hwMonStart_undone_iff (hundo : UndoSucceeds p cores event σ.msr)
    (h : (hwMonStart p cores event g).run σ = .error e σ') :
    StartUndone σ.msr σ'.msr ↔ NoneLeftRunning p cores event σ.msr := by
  rcases hwMonStart_failed h with ⟨hmem, -, hstop⟩ | ⟨hevents, ctxs, s₁, s₂, hctxs, hbody, hmsr, -⟩
  · have hsame : StartUndone σ.msr σ'.msr :=
      ⟨fun k => Msr.rmid_of_mem hmem k, fun core => by
        rw [show σ'.msr.globalCtrl core = σ.msr.globalCtrl core from congrFun hmem _]
        simp⟩
    refine ⟨fun _ hevents ctxs s₁ hctxs => ?_, fun _ => hsame⟩
    rcases hstop with hstop | hstop
    · exact absurd hevents hstop
    · exact absurd hctxs (hstop ctxs s₁)
  · obtain ⟨s₃, hs₃⟩ := hundo ctxs s₁ e s₂ hctxs hbody
    rw [hs₃, final_ok] at hmsr
    have hmem : s₁.globalCtrl = σ.msr.globalCtrl := by
      funext core
      exact congrFun (monCtxs_idle hctxs).1 _
    have hglobal : σ'.msr.globalCtrl = _ :=
      (hmsr ▸ startUndo_keepsGlobal.of_ok hs₃).trans (startBody_globalCtrl hbody)
    have hiff : ∀ core, σ'.msr.globalCtrl core &&& ~~~ σ.msr.globalCtrl core = 0#64
        ↔ (LeftRunning event core (p.accepted s₁.trace (perfAccesses event cores)) →
          globalCtrlMask event &&& ~~~ σ.msr.globalCtrl core = 0#64) := by
      intro core
      rw [hglobal, ← hmem]
      exact foldl_enabled_iff (accepted_le _ _)
    constructor
    · intro hsame _ ctxs' s₁' hctxs' core
      obtain ⟨rfl, rfl⟩ := EStateM.Result.ok.inj (hctxs'.symm.trans hctxs)
      exact (hiff core).1 (hsame.counters core)
    · intro hnone
      refine ⟨fun k => ?_, fun core => (hiff core).2 (hnone hevents ctxs s₁ hctxs core)⟩
      rw [hmsr]
      exact startUndo_rmids hctxs hbody hs₃ k

theorem undoSucceeds_of_value (h : value ((do
      let ctxs ← cores.foldlM (monCtx p event) []
      let _ : Except Err Unit ← attempt (startBody p cores event ctxs)
      startUndo p cores : EStateM Err Msr Unit).run s) = some ()) :
    UndoSucceeds p cores event s := by
  intro ctxs s₁ e s₂ hctxs hbody
  obtain ⟨t, h⟩ := value_eq_some.1 h
  rw [bind_of_ok hctxs, attempt_bind_of_error hbody] at h
  exact ⟨t, h⟩

end Start

/-! ## Two starts that fail -/

/-- Cores 0 and 1, of which `core` lets no one reset its count of instructions. -/
def stuckPlatform (core : Nat) : Platform :=
  { smallPlatform [⟨true,
    .mon ⟨4, [⟨monEventL3Occup, 4, true, 65536⟩, ⟨perfEventIpc, 0, true, 0⟩]⟩⟩]
    with fails := fun _ a => a = .wr core msrInstRetiredAny 0#64 }

def occupAndIpc : MonEvent := monEventL3Occup ||| perfEventIpc

/-- Where the first core cannot be set up, none is left running. -/
theorem hwMonStart_undone_iff_first :
    StartUndone idleState.msr
        (final ((hwMonStart (stuckPlatform 0) [0, 1] occupAndIpc 0).run idleState)).msr
      ↔ NoneLeftRunning (stuckPlatform 0) [0, 1] occupAndIpc idleState.msr := by
  have hfail : failure ((hwMonStart (stuckPlatform 0) [0, 1] occupAndIpc 0).run idleState)
      = some .error := by
    decide +kernel
  exact hwMonStart_undone_iff (undoSucceeds_of_value (by decide +kernel)) (failure_eq_some.1 hfail)

/-- Where the second core cannot be set up, the first is left running. -/
theorem hwMonStart_leaves_running :
    UndoSucceeds (stuckPlatform 1) [0, 1] occupAndIpc idleState.msr
      ∧ failure ((hwMonStart (stuckPlatform 1) [0, 1] occupAndIpc 0).run idleState) = some .error
      ∧ ¬ StartUndone idleState.msr
        (final ((hwMonStart (stuckPlatform 1) [0, 1] occupAndIpc 0).run idleState)).msr := by
  refine ⟨undoSucceeds_of_value (by decide +kernel), by decide +kernel, fun h => ?_⟩
  have hleft : (final ((hwMonStart (stuckPlatform 1) [0, 1] occupAndIpc 0).run
      idleState)).msr.globalCtrl 0 &&& ~~~ idleState.msr.globalCtrl 0 ≠ 0#64 := by
    decide +kernel
  exact hleft (h.counters 0)

end Pqos
