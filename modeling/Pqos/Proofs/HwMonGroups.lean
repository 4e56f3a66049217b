import Pqos.Proofs.MonLifecycle
import Pqos.Proofs.Rmid

/-!
# Monitoring groups on the MSR interface

The back end keeps to its own group's mark. However its accesses fail, a start moves only cores that
it found at RMID 0, so the cores of the groups that are valid stay at their RMIDs. Where memory is
no concern, starts and stops are those without it.
-/

namespace Pqos

open Prog

section Hw

variable {σ : Type} {p : Platform} {hw : CounterHw σ} {g : Nat} {s t : HwMon σ}

@[simp] theorem HwMon.setGroup_msr (g : Nat) (d : HwGroup) (s : HwMon σ) :
    (s.setGroup g d).msr = s.msr := rfl
@[simp] theorem HwMon.setGroup_hw (g : Nat) (d : HwGroup) (s : HwMon σ) :
    (s.setGroup g d).hw = s.hw := rfl
@[simp] theorem HwMon.setGroup_groups (g : Nat) (d : HwGroup) (s : HwMon σ) :
    (s.setGroup g d).groups = Function.update s.groups g d := rfl

theorem onRegs_keepsGroups {α : Type} (x : EStateM Err Msr α) :
    Keeps (fun s t : HwMon σ => t.groups = s.groups) (onRegs x) :=
  Keeps.zoom (R := fun _ _ => True) (fun _ => trivial) fun _ _ _ => rfl

/-- Only the group `g` changed, and its mark, if it did, to 0. -/
def OnGroup (g : Nat) (s t : HwMon σ) : Prop :=
  (∀ g' ≠ g, t.groups g' = s.groups g')
    ∧ ((t.groups g).data.valid = (s.groups g).data.valid ∨ (t.groups g).data.valid = 0)

theorem OnGroup.isFrame (g : Nat) : Frame (@OnGroup σ g) :=
  (Frame.all fun _ => Frame.all fun _ => Frame.eq _).and (Frame.eqOr _ fun valid => valid = 0)

theorem OnGroup.of_groups (h : t.groups = s.groups) : OnGroup g s t :=
  ⟨fun _ _ => by rw [h], Or.inl (by rw [h])⟩

theorem OnGroup.of_update {d : HwGroup} (h : t.groups = Function.update s.groups g d)
    (hd : d.data.valid = (s.groups g).data.valid ∨ d.data.valid = 0) : OnGroup g s t := by
  refine ⟨fun g' hg => ?_, ?_⟩
  · rw [h, Function.update_of_ne hg]
  · rw [h, Function.update_self]
    exact hd

theorem OnGroup.confined (h : OnGroup g s t) : (hwMonBackend p hw).Confined g s t :=
  ⟨fun g' hg => by
    show (t.groups g').data.valid = (s.groups g').data.valid
    rw [h.1 g' hg], h.2⟩

theorem hwMonStartMem_onGroup (mem : HwMem) (cores : List Nat) (event : MonEvent) (g : Nat) :
    Keeps (OnGroup g) (@hwMonStartMem σ p mem cores event g) := by
  have hF : Frame (@OnGroup σ g) := OnGroup.isFrame g
  have hregs {α : Type} (x : EStateM Err Msr α) : Keeps (@OnGroup σ g) (onRegs x) :=
    (onRegs_keepsGroups x).mono OnGroup.of_groups
  unfold hwMonStartMem
  refine Keeps.bind hF (Keeps.failIf hF _ _) fun _ => Keeps.bind hF (hregs _) fun ctxs =>
    Keeps.bind hF (fun s => OnGroup.of_update rfl (Or.inr rfl)) fun _ =>
    Keeps.bind hF (Keeps.failIf hF _ _) fun _ => Keeps.bind hF (hregs _) fun r => ?_
  cases r with
  | ok => exact fun s => OnGroup.of_update rfl (Or.inr rfl)
  | error e => exact Keeps.bind hF (hregs _) fun _ => Keeps.throw hF e

/-- Every register and every group is as it was. -/
def Unchanged (s t : HwMon σ) : Prop :=
  t.msr.mem = s.msr.mem ∧ t.groups = s.groups ∧ t.hw = s.hw

theorem Unchanged.isFrame : Frame (@Unchanged σ) :=
  (Frame.eq _).and ((Frame.eq _).and (Frame.eq _))

theorem onRegs_keepsMem {α : Type} {x : EStateM Err Msr α}
    (hx : Keeps (fun s t => t.mem = s.mem) x) :
    Keeps (@Unchanged σ) (onRegs x) :=
  Keeps.zoom hx fun _ _ h => ⟨h, rfl, rfl⟩

theorem hwMonStopChecks_keeps : Keeps (@Unchanged σ) (hwMonStopChecks p g) := by
  intro s
  have hcheck : Keeps (fun s t : Msr => t.mem = s.mem)
      ((s.groups g).data.pollCtx.forM (monCheckCtx p)) :=
    Keeps.forM (Frame.eq Msr.mem) fun _ _ => monCheckCtx_keepsMem
  unfold hwMonStopChecks
  rw [get_bind, final_failIf_bind]
  split_ifs
  · exact ⟨rfl, rfl, rfl⟩
  · exact onRegs_keepsMem hcheck s

/-- The group is cleared, however the undoing ends. -/
theorem hwMonStopUndo_groups (s : HwMon σ) :
    (final ((hwMonStopUndo p g).run s)).groups = Function.update s.groups g .zero := by
  unfold hwMonStopUndo
  rw [get_bind]
  let P (t : HwMon σ) : Prop := t.groups = Function.update s.groups g .zero
  refine final_bind (P := P) (fun e t h => ?_) fun undone t h =>
    final_bind (P := P) (fun e u h' => ?_) fun stopped u h' => ?_
  · obtain ⟨_, h, -⟩ := zoom_error.1 h
    exact absurd h attempt_ne_error
  · obtain ⟨_, h', -⟩ := zoom_error.1 h'
    exact absurd h' attempt_ne_error
  · have ht : t.groups = s.groups := (onRegs_keepsGroups _).of_ok h
    have hu : u.groups = t.groups := (onRegs_keepsGroups _).of_ok h'
    have hcleared : Keeps (fun u t : HwMon σ => t.groups = u.groups) (failIf
        (undone.isOk = false ∨ stopped.isOk = false) Err.resource) :=
      Keeps.failIf (Frame.eq HwMon.groups) _ _
    calc (final ((failIf (undone.isOk = false ∨ stopped.isOk = false) Err.resource :
          EStateM Err (HwMon σ) Unit).run (u.setGroup g .zero))).groups
        = Function.update u.groups g .zero := hcleared _
      _ = Function.update s.groups g .zero := by rw [hu, ht]

/-- A poll writes to the values of its groups. -/
def ValuesOnly (s t : HwMon σ) : Prop :=
  t.msr = s.msr ∧ ∀ g, (t.groups g).data = (s.groups g).data

theorem ValuesOnly.isFrame : Frame (@ValuesOnly σ) :=
  (Frame.eq _).and (Frame.all fun _ => Frame.eq _)

theorem hwPollGroup_keeps (p : Platform) (hw : CounterHw σ) (g : Nat) :
    Keeps ValuesOnly (hwPollGroup p hw g) := by
  have hzoom (x : EStateM Err (Polled σ) Unit) : Keeps ValuesOnly
      (zoom (fun s : HwMon σ => Polled.mk s.hw (s.groups g).polled)
        (fun t s => { s.setGroup g { s.groups g with polled := t.group } with hw := t.hw }) x) := by
    refine Keeps.zoom (R := fun _ _ => True) (fun _ => trivial) fun u t _ => ⟨rfl, fun g' => ?_⟩
    show (Function.update u.groups g _ g').data = (u.groups g').data
    by_cases hg : g' = g
    · rw [hg, Function.update_self]
    · rw [Function.update_of_ne hg]
  intro s
  exact Keeps.bind ValuesOnly.isFrame (Keeps.attempt (hzoom (pqosCorePoll hw p (s.groups g).data)))
    (fun _ => Keeps.pure ValuesOnly.isFrame _) s

theorem hwPoll_keeps (p : Platform) (hw : CounterHw σ) (groups : List Nat) :
    Keeps ValuesOnly ((hwMonBackend p hw).poll groups) :=
  Keeps.forM ValuesOnly.isFrame fun g _ => hwPollGroup_keeps p hw g

theorem hwMonBackend_lawful (p : Platform) (hw : CounterHw σ) : (hwMonBackend p hw).Lawful where
  valid_set g v s g' := by
    show (Function.update s.groups g _ g').data.valid = _
    split_ifs with hg
    · rw [hg, Function.update_self]
    · rw [Function.update_of_ne hg]
      rfl
  start mem cores event g := (hwMonStartMem_onGroup mem cores event g).mono OnGroup.confined
  setPid pid event g s := (OnGroup.of_update rfl (Or.inr rfl)).confined
  startPid env g := Keeps.throw (MonBackend.Confined.isFrame g) _
  stopChecks g := hwMonStopChecks_keeps.mono fun {s t} h g => by
    show (t.groups g).data.valid = (s.groups g).data.valid
    rw [h.2.1]
  stopUndo g s := (OnGroup.of_update (hwMonStopUndo_groups s) (Or.inr rfl)).confined
  stopUndo_clears g s := by
    show ((final ((hwMonStopUndo p g).run s)).groups g).data.valid = 0
    rw [hwMonStopUndo_groups, Function.update_self]
    rfl
  poll groups := (hwPoll_keeps p hw groups).mono fun {s t} h g => by
    show (t.groups g).data.valid = (s.groups g).data.valid
    rw [h.2 g]

/-! ## The RMIDs of valid groups -/

theorem rmidAllocMem_ok {noMem : Option Err} {cluster r : Nat} {event : MonEvent} {m m' : Msr}
    (h : (rmidAllocMem p noMem cluster event).run m = .ok r m') :
    (rmidAlloc p cluster event).run m = .ok r m' := by
  unfold rmidAllocMem at h
  simp only [bind_ok, ofExcept_ok, failIf_ok] at h
  obtain ⟨_, _, ⟨-, rfl⟩, _, _, ⟨-, rfl⟩, h⟩ := h
  cases noMem with
  | some e => cases h
  | none => exact h

/-- A search that succeeds with the memory it asks for finds what it would find with any. -/
theorem monCtxBy_ok {alloc : Nat → MonEvent → EStateM Err Msr Nat}
    (alloc' : Nat → MonEvent → EStateM Err Msr Nat)
    (halloc : ∀ cluster event m r m', (alloc cluster event).run m = .ok r m' →
      (alloc' cluster event).run m = .ok r m')
    {event : MonEvent} {ctxs ctxs' : List PollCtx} {lcore : Nat} {m m' : Msr}
    (h : (monCtxBy p alloc event ctxs lcore).run m = .ok ctxs' m') :
    (monCtxBy p alloc' event ctxs lcore).run m = .ok ctxs' m' := by
  unfold monCtxBy at h ⊢
  rw [bind_ok] at h ⊢
  obtain ⟨_, m₁, hcheck, h⟩ := h
  refine ⟨_, m₁, hcheck, ?_⟩
  rw [bind_ok] at h ⊢
  obtain ⟨r, m₂, hget, h⟩ := h
  refine ⟨r, m₂, hget, ?_⟩
  cases r with
  | error e => exact h
  | ok rmid =>
    rw [bind_ok] at h ⊢
    obtain ⟨_, m₃, hzero, h⟩ := h
    refine ⟨_, m₃, hzero, ?_⟩
    cases hcl : p.cpu.getClusterid lcore with
    | error e =>
      rw [hcl] at h
      cases h
    | ok cluster =>
      rw [hcl] at h
      dsimp only at h ⊢
      split_ifs at h ⊢
      · exact h
      · rw [bind_ok] at h ⊢
        obtain ⟨rmid, m₄, hr, h⟩ := h
        exact ⟨rmid, m₄, halloc _ _ _ _ _ hr, h⟩

theorem monCtxsMem_ok {mem : HwMem} {cores : List Nat} {event : MonEvent} {ctxs : List PollCtx}
    {m m' : Msr} (h : (cores.foldlM (monCtxMem p mem event) []).run m = .ok ctxs m') :
    (cores.foldlM (monCtx p event) []).run m = .ok ctxs m' :=
  foldlM_ok_of_steps (fun _ _ _ _ _ hstep => monCtxBy_ok (rmidAlloc p)
    (fun _ _ _ _ _ => rmidAllocMem_ok) hstep) h

theorem rmidAllocMem_keepsMem (noMem : Option Err) (cluster : Nat) (event : MonEvent) :
    Keeps (fun s t => t.mem = s.mem) (rmidAllocMem p noMem cluster event) := by
  have hF : Frame fun s t : Msr => t.mem = s.mem := Frame.eq Msr.mem
  refine Keeps.bind hF (Keeps.ofExcept hF _) fun mon =>
    Keeps.bind hF (Keeps.failIf hF _ _) fun _ => ?_
  cases noMem with
  | some e => exact Keeps.throw hF e
  | none => exact rmidAlloc_keepsMem

theorem monCtxMem_keepsMem {mem : HwMem} {event : MonEvent} {ctxs : List PollCtx} {lcore : Nat} :
    Keeps (fun s t => t.mem = s.mem) (monCtxMem p mem event ctxs lcore) :=
  monCtxBy_keepsMem (rmidAllocMem_keepsMem _)

section Start

variable {mem : HwMem} {cores : List Nat} {event : MonEvent} {u : Unit} {e : Err}

/-- What a start does to the registers when it succeeds does not depend on the memory there was. -/
theorem hwMonStartMem_ok (hfit : p.RmidsFit)
    (h : (hwMonStartMem p mem cores event g).run s = .ok u t) :
    ∃ ctxs, Started p cores ctxs s.msr t.msr
      ∧ t.groups = Function.update s.groups g ⟨⟨0, event, ctxs, cores⟩, .zero⟩ := by
  unfold hwMonStartMem onRegs at h
  simp only [bind_ok, failIf_ok, zoom_ok, attempt_ok] at h
  obtain ⟨_, s, ⟨-, rfl⟩, ctxs, _, ⟨m₁, hctxs, rfl⟩, _, s₂, hclear, _, _, ⟨-, rfl⟩, r, _,
    ⟨m₂, hr, rfl⟩, h⟩ := h
  obtain ⟨hmem, hready⟩ := monCtxs_ok hfit (monCtxsMem_ok hctxs)
  cases hclear
  rcases hr with ⟨_, rfl, _, m₃, ⟨-, rfl⟩, hbody⟩ | ⟨e, rfl, -⟩
  · cases h
    obtain ⟨_, m₃, hperf, hassoc⟩ := hbody
    refine ⟨ctxs, ⟨hready, fun k hk => monAssoc_ok hready hassoc hk, ?_⟩, ?_⟩
    · exact (RmidsKept.isFrame cores).trans (RmidsKept.of_mem hmem)
        (startBody_keepsRmids.of_ok (bind_ok.2 ⟨_, m₃, hperf, hassoc⟩))
    · show Function.update (Function.update s.groups g HwGroup.zero) g
        ⟨_, (Function.update s.groups g HwGroup.zero g).polled⟩ = _
      rw [Function.update_idem, Function.update_self]
      rfl
  · obtain ⟨_, _, -, h⟩ := bind_ok.1 h
    cases h

/-- A start behind its checks. -/
abbrev hwMonStartBehind (p : Platform) (mem : HwMem) (cores : List Nat) (event : MonEvent) (g : Nat)
    (ctxs : List PollCtx) : EStateM Err (HwMon σ) Unit := do
  modify (HwMon.setGroup g .zero)
  failIf (mem.cores = false) .resource
  let r ← onRegs (attempt do
    failIf (mem.pollCtx = false) .resource
    startBody p cores event ctxs)
  match r with
  | .ok _ => modify (HwMon.setData g ⟨0, event, ctxs, cores⟩)
  | .error e => do
    let _ ← onRegs (attempt (startUndo p cores))
    throw e

/-- However a start ends, it changes the RMIDs of cores only that it found idle. -/
theorem hwMonStartMem_rmids (mem : HwMem) (cores : List Nat) (event : MonEvent) (g : Nat)
    (s : HwMon σ) : ∃ l, (∀ k ∈ l, s.msr.rmid k = 0)
      ∧ RmidsKept l s.msr (final ((hwMonStartMem p mem cores event g).run s)).msr := by
  let P (t : HwMon σ) : Prop :=
    ∃ l, (∀ k ∈ l, s.msr.rmid k = 0) ∧ RmidsKept l s.msr t.msr
  have hsame {t : HwMon σ} (h : t.msr.mem = s.msr.mem) : P t :=
    ⟨[], by simp, RmidsKept.of_mem h⟩
  unfold hwMonStartMem
  rw [final_failIf_bind]
  split_ifs
  · exact hsame rfl
  have hctxs : Keeps (fun s t => t.mem = s.mem) (cores.foldlM (monCtxMem p mem event) []) :=
    Keeps.foldlM (Frame.eq Msr.mem) fun _ _ _ => monCtxMem_keepsMem
  refine final_bind (P := P) (fun e t h => hsame ((onRegs_keepsMem hctxs).of_error h).1)
    fun ctxs t h => ?_
  obtain ⟨m, hm, rfl⟩ := zoom_ok.1 h
  obtain ⟨hmem, hidle⟩ := monCtxs_idle (monCtxsMem_ok hm)
  refine ⟨cores, fun k hk => (hidle k hk).2, ?_⟩
  have hF : Frame fun s t : HwMon σ => RmidsKept cores s.msr t.msr :=
    ⟨fun s => (RmidsKept.isFrame cores).refl s.msr, (RmidsKept.isFrame cores).trans⟩
  have hregs {α : Type} {x : EStateM Err Msr α} (hx : Keeps (RmidsKept cores) x) :
      Keeps (fun s t : HwMon σ => RmidsKept cores s.msr t.msr) (onRegs x) :=
    Keeps.zoom hx fun _ _ h => h
  have hundo : Keeps (RmidsKept cores) (startUndo p cores) :=
    Keeps.tryAll (RmidsKept.isFrame cores) fun _ hk => monAssocSet_keepsRmids hk
  have hrest : Keeps (fun s t : HwMon σ => RmidsKept cores s.msr t.msr)
      (hwMonStartBehind p mem cores event g ctxs) := by
    refine Keeps.bind hF (fun s => hF.refl s) fun _ => Keeps.bind hF (Keeps.failIf hF _ _) fun _ =>
      Keeps.bind hF (hregs (Keeps.attempt (Keeps.bind (RmidsKept.isFrame cores)
        (Keeps.failIf (RmidsKept.isFrame cores) _ _) fun _ => startBody_keepsRmids))) fun r => ?_
    cases r with
    | ok => exact fun s => hF.refl s
    | error e => exact Keeps.bind hF (hregs (Keeps.attempt hundo)) fun _ => Keeps.throw hF e
  exact (RmidsKept.isFrame cores).trans (RmidsKept.of_mem hmem) (hrest { s with msr := m })

end Start

/-- A stop changes the RMIDs of the cores of its group only. -/
theorem hwMonStopUndo_rmids (s : HwMon σ) : RmidsKept (s.groups g).data.cores s.msr
    (final ((hwMonStopUndo p g).run s)).msr := by
  have hF : Frame fun t u : HwMon σ => RmidsKept (s.groups g).data.cores t.msr u.msr :=
    ⟨fun t => (RmidsKept.isFrame _).refl t.msr, (RmidsKept.isFrame _).trans⟩
  have hregs {α : Type} {x : EStateM Err Msr α} (hx : Keeps (RmidsKept (s.groups g).data.cores) x) :
      Keeps (fun t u : HwMon σ => RmidsKept (s.groups g).data.cores t.msr u.msr) (onRegs x) :=
    Keeps.zoom hx fun _ _ h => h
  have hclear : Keeps (fun t u : HwMon σ => RmidsKept (s.groups g).data.cores t.msr u.msr)
      (modify (HwMon.setGroup g .zero) : EStateM Err (HwMon σ) Unit) := fun t => hF.refl t
  unfold hwMonStopUndo
  rw [get_bind]
  exact Keeps.bind hF (hregs (Keeps.attempt (Keeps.tryAll (RmidsKept.isFrame _)
      fun _ hk => monAssocSet_keepsRmids hk))) (fun _ =>
    Keeps.bind hF (hregs (Keeps.attempt (ia32PerfCounterStop_keepsRmids _))) fun _ =>
    Keeps.bind hF hclear fun _ => Keeps.failIf hF _ _) s

/-- The cores of a valid group carry the RMIDs of the group's contexts, none of them 0, and no core
is in two valid groups. -/
structure Associated (p : Platform) (s : HwMon σ) : Prop where
  carries : ∀ g, (s.groups g).data.Active → ∀ k ∈ (s.groups g).data.cores,
    ∃ c ∈ (s.groups g).data.pollCtx, p.cpu.getClusterid k = .ok c.cluster
      ∧ s.msr.rmid k = c.rmid ∧ c.rmid ≠ 0
  disjoint : ∀ g g' k, (s.groups g).data.Active → (s.groups g').data.Active →
    k ∈ (s.groups g).data.cores → k ∈ (s.groups g').data.cores → g = g'

/-- A change to groups that are not valid after it, and to the RMIDs of cores that no group has
that is. -/
theorem Associated.kept (h : Associated p s) {l : List Nat} (hl : RmidsKept l s.msr t.msr)
    (hg : ∀ g, (t.groups g).data.Active → (t.groups g).data = (s.groups g).data
      ∧ ∀ k ∈ l, k ∉ (s.groups g).data.cores) : Associated p t where
  carries g hact k hk := by
    obtain ⟨hdata, hfree⟩ := hg g hact
    rw [hdata] at hact hk ⊢
    obtain ⟨c, hc, hcl, hr, hne⟩ := h.carries g hact k hk
    exact ⟨c, hc, hcl, (hl k fun hkl => hfree k hkl hk).trans hr, hne⟩
  disjoint g g' k hact hact' hk hk' := by
    have hdata := (hg g hact).1
    have hdata' := (hg g' hact').1
    rw [hdata] at hact hk
    rw [hdata'] at hact' hk'
    exact h.disjoint g g' k hact hact' hk hk'

/-- Cores that are idle are in no valid group. -/
theorem Associated.not_mem (h : Associated p s) {k : Nat} (hk : s.msr.rmid k = 0)
    (hact : (s.groups g).data.Active) : k ∉ (s.groups g).data.cores := by
  intro hmem
  obtain ⟨c, -, -, hr, hne⟩ := h.carries g hact k hmem
  exact hne (hr.symm.trans hk)

/-- A start that succeeds adds a group to the valid ones. -/
theorem Associated.started (h : Associated p s) {cores : List Nat} {ctxs : List PollCtx}
    {event : MonEvent} {v : PollValues} (hs : Started p cores ctxs s.msr t.msr)
    (hg : t.groups = Function.update s.groups g ⟨⟨groupValidMarker, event, ctxs, cores⟩, v⟩) :
    Associated p t := by
  have hother {g' : Nat} (hne : g' ≠ g) : t.groups g' = s.groups g' := by
    rw [hg, Function.update_of_ne hne]
  have hself : (t.groups g).data = ⟨groupValidMarker, event, ctxs, cores⟩ := by
    rw [hg, Function.update_self]
  have hfree {g' k : Nat} (hact : (s.groups g').data.Active) (hk : k ∈ cores) :
      k ∉ (s.groups g').data.cores := h.not_mem (hs.ready.idle k hk).2 hact
  refine ⟨fun g' hact k hk => ?_, fun g₁ g₂ k h₁ h₂ hk₁ hk₂ => ?_⟩
  · by_cases hne : g' = g
    · subst hne
      rw [hself] at hk ⊢
      obtain ⟨cluster, c, hcl, hctx, hmoved⟩ := hs.moved k hk
      have hc : c ∈ ctxs := List.mem_of_find?_eq_some hctx
      have hce : c.cluster = cluster := by simpa using List.find?_some hctx
      refine ⟨c, hc, hce ▸ hcl, hmoved, fun hzero => ?_⟩
      exact (hs.ready.free c hc).2 k (hce ▸ hcl) ((hs.ready.idle k hk).2.trans hzero.symm)
    · rw [hother hne] at hact hk ⊢
      obtain ⟨c, hc, hcl, hr, hnz⟩ := h.carries g' hact k hk
      exact ⟨c, hc, hcl, (hs.kept k fun hkc => hfree hact hkc hk).trans hr, hnz⟩
  · by_cases hg₁ : g₁ = g <;> by_cases hg₂ : g₂ = g
    · rw [hg₁, hg₂]
    · rw [hg₁, hself] at hk₁
      rw [hother hg₂] at h₂ hk₂
      exact absurd hk₂ (hfree h₂ hk₁)
    · rw [hg₂, hself] at hk₂
      rw [hother hg₁] at h₁ hk₁
      exact absurd hk₁ (hfree h₁ hk₂)
    · rw [hother hg₁] at h₁ hk₁
      rw [hother hg₂] at h₂ hk₂
      exact h.disjoint g₁ g₂ k h₁ h₂ hk₁ hk₂

/-- A start keeps the valid groups at their RMIDs, however it ends. -/
theorem Associated.marked (hfit : p.RmidsFit) (h : Associated p s) (hs : ¬ (s.groups g).data.Active)
    (mem : HwMem) (cores : List Nat) (event : MonEvent) : Associated p (final
      (((hwMonBackend p hw).marked g (hwMonStartMem p mem cores event g)).run s)) := by
  have hgroup := hwMonStartMem_onGroup (p := p) mem cores event g s
  obtain ⟨l, hidle, hl⟩ := hwMonStartMem_rmids (p := p) mem cores event g s
  unfold MonBackend.marked
  rcases hr : (hwMonStartMem p mem cores event g).run s with ⟨_, t⟩ | ⟨e, t⟩
  · rw [bind_of_ok hr]
    obtain ⟨ctxs, hstarted, hg⟩ := hwMonStartMem_ok hfit hr
    have hmarked : (t.setData g { (t.groups g).data with valid := groupValidMarker }).groups
        = Function.update s.groups g ⟨⟨groupValidMarker, event, ctxs, cores⟩, .zero⟩ := by
      show Function.update t.groups g ⟨_, (t.groups g).polled⟩ = _
      rw [hg, Function.update_self, Function.update_idem]
    exact h.started (t := t.setData g { (t.groups g).data with valid := groupValidMarker })
      hstarted hmarked
  · rw [hr, final_error] at hgroup hl
    rw [bind_of_error hr]
    refine h.kept hl fun g' hact => ?_
    have hne : g' ≠ g := by
      rintro rfl
      have hconfined : (hwMonBackend p hw).Confined g' _ _ := hgroup.confined
      exact hconfined.not_valid hs hact
    rw [final_error, hgroup.1 g' hne] at hact ⊢
    exact ⟨rfl, fun k hk => h.not_mem (hidle k hk) hact⟩

theorem Associated.stopped (h : Associated p s) (hs : (s.groups g).data.Active) :
    Associated p (final ((hwMonStopUndo p g).run s)) := by
  refine h.kept (hwMonStopUndo_rmids s) fun g' hact => ?_
  rw [hwMonStopUndo_groups] at hact ⊢
  have hne : g' ≠ g := by
    rintro rfl
    rw [Function.update_self] at hact
    exact not_active_zero hact
  rw [Function.update_of_ne hne] at hact ⊢
  exact ⟨rfl, fun k hk hk' => hne (h.disjoint g' g k hact hs hk' hk)⟩

theorem Associated.call (hfit : p.RmidsFit) (h : Associated p s) (call : MonLibCall HwMem) :
    Associated p (final (((hwMonBackend p hw).call call).run s)) := by
  have hsame {t : HwMon σ} (hm : t.msr.mem = s.msr.mem)
      (hg : ∀ g, (t.groups g).data = (s.groups g).data) : Associated p t :=
    h.kept (l := []) (RmidsKept.of_mem hm) fun g _ => ⟨hg g, by simp⟩
  cases call with
  | start mem cores event g =>
    rcases MonBackend.pqosMonStart_cases (b := hwMonBackend p hw) mem cores event g s with
      ⟨e, he⟩ | ⟨hs, hrun⟩
    · rw [MonBackend.call, he]
      exact h
    · rw [MonBackend.call, hrun]
      exact h.marked hfit hs mem cores event
  | startPid mem pid event g =>
    rcases MonBackend.pqosMonStartPid_cases (b := hwMonBackend p hw) mem pid event g s with
      ⟨e, he⟩ | ⟨-, hos, -⟩
    · rw [MonBackend.call, he]
      exact h
    · cases hos
  | stop g =>
    rcases MonBackend.pqosMonStop_cases (b := hwMonBackend p hw) g s with
      ⟨-, e, t, hrun, rfl | hc⟩ | ⟨hundoes, t, hc, hrun⟩
    · rw [MonBackend.call, hrun]
      exact h
    · rw [MonBackend.call, hrun]
      obtain ⟨hm, hg, -⟩ := hwMonStopChecks_keeps.of_error hc
      exact hsame hm fun g => by rw [final_error, hg]
    · rw [MonBackend.call, hrun]
      obtain ⟨hm, hg, -⟩ := hwMonStopChecks_keeps.of_ok hc
      refine (hsame hm fun g => by rw [hg]).stopped ?_
      rw [hg]
      exact hundoes.2.1
  | poll groups =>
    rcases MonBackend.pqosMonPoll_cases (b := hwMonBackend p hw) groups s with ⟨e, he⟩ | ⟨-, hrun⟩
    · rw [MonBackend.call, he]
      exact h
    · rw [MonBackend.call, hrun]
      obtain ⟨hm, hg⟩ := hwPoll_keeps p hw groups s
      exact hsame (by rw [hm]) hg

/-- In every state that a sequence of calls reaches, the valid groups' cores carry their RMIDs,
whatever failed on the way. -/
theorem after_associated (hfit : p.RmidsFit) (calls : Nat → MonLibCall HwMem)
    (h0 : ∀ g, ¬ (s.groups g).data.Active) :
    ∀ n, Associated p ((hwMonBackend p hw).after calls s n)
  | 0 => ⟨fun g hg => absurd hg (h0 g), fun g _ _ hg => absurd hg (h0 g)⟩
  | n + 1 => (after_associated hfit calls h0 n).call hfit (calls n)

/-! ## Starts with enough memory -/

/-- The registers and the groups, without what polls write. -/
def HwMon.mon (s : HwMon σ) : MonState := ⟨s.msr, fun g => (s.groups g).data⟩

def HwMem.ample : HwMem := ⟨fun _ => none, true, true⟩

theorem HwMon.mon_setGroup (g : Nat) (d : HwGroup) (s : HwMon σ) :
    (s.setGroup g d).mon = s.mon.setGroup g d.data := by
  refine congrArg (MonState.mk s.msr) (funext fun g' => ?_)
  show (Function.update s.groups g d g').data
    = Function.update (fun g => (s.groups g).data) g d.data g'
  by_cases hg : g' = g
  · rw [hg, Function.update_self, Function.update_self]
  · rw [Function.update_of_ne hg, Function.update_of_ne hg]

theorem rmidAllocMem_none (cluster : Nat) (event : MonEvent) :
    rmidAllocMem p none cluster event = rmidAlloc p cluster event := by
  refine funext fun m => ?_
  show (rmidAllocMem p none cluster event).run m = (rmidAlloc p cluster event).run m
  unfold rmidAllocMem
  rcases hcap : p.capGetType CapItem.mon? with e | mon
  · unfold rmidAlloc
    rw [hcap]
    rfl
  rw [bind_of_ok (ofExcept_ok.2 ⟨rfl, rfl⟩), failIf_bind_run]
  split_ifs with hfound
  · unfold rmidAlloc
    rw [hcap, bind_of_ok (ofExcept_ok.2 ⟨rfl, rfl⟩), failIf_bind_run, if_pos hfound]
  · rfl

theorem onRegs_mirrors {α : Type} (x : EStateM Err Msr α) :
    Mirrors (@HwMon.mon σ) (onRegs x) (onMsr x) := by
  refine Mirrors.zoom HwMon.mon ?_ ?_ x
  · exact fun _ => rfl
  · exact fun _ _ => rfl

theorem hwMonStartMem_mirrors (cores : List Nat) (event : MonEvent) (g : Nat) :
    Mirrors (@HwMon.mon σ) (hwMonStartMem p .ample cores event g) (hwMonStart p cores event g) := by
  have hctx : monCtxMem p .ample event = monCtx p event := by
    refine funext fun ctxs => funext fun lcore => ?_
    show monCtxBy p (rmidAllocMem p none) event ctxs lcore = _
    rw [funext fun cluster => funext fun event => rmidAllocMem_none (p := p) cluster event]
    rfl
  unfold hwMonStartMem hwMonStart
  rw [hctx]
  refine Mirrors.bind (Mirrors.failIf _ _) fun _ => Mirrors.bind (onRegs_mirrors _) fun ctxs =>
    Mirrors.bind (Mirrors.modify fun s => HwMon.mon_setGroup g _ s) fun _ => ?_
  show Mirrors HwMon.mon (onRegs (attempt (startBody p cores event ctxs)) >>= _) _
  refine Mirrors.bind (onRegs_mirrors _) fun r => ?_
  cases r with
  | ok => exact Mirrors.modify fun s => HwMon.mon_setGroup g _ s
  | error e => exact Mirrors.bind (onRegs_mirrors _) fun _ => Mirrors.throw e

theorem hwMonStop_mirrors (g : Nat) : Mirrors (@HwMon.mon σ)
    (do hwMonStopChecks p g; hwMonStopUndo p g) (hwMonStop p g) := by
  intro s
  unfold hwMonStop
  rw [get_bind, failIf_bind_run]
  split_ifs with hempty
  · have hc : (hwMonStopChecks p g).run s = .error .param s := by
      unfold hwMonStopChecks
      rw [get_bind, failIf_bind_run]
      exact if_pos hempty
    rw [bind_of_error hc]
    rfl
  · have hc : (hwMonStopChecks p g).run s
        = (onRegs ((s.groups g).data.pollCtx.forM (monCheckCtx p))).run s := by
      unfold hwMonStopChecks
      rw [get_bind, failIf_bind_run]
      exact if_neg hempty
    rcases hrun : ((s.groups g).data.pollCtx.forM (monCheckCtx p)).run s.msr with ⟨_, m⟩ | ⟨e, m⟩
    · have hm : (onMsr ((s.mon.groups g).pollCtx.forM (monCheckCtx p))).run s.mon
          = .ok ⟨⟩ { s.mon with msr := m } := zoom_ok.2 ⟨m, hrun, rfl⟩
      rw [bind_of_ok (hc.trans (zoom_ok.2 ⟨m, hrun, rfl⟩)), bind_of_ok hm]
      exact Mirrors.bind (onRegs_mirrors _) (fun undone => Mirrors.bind (onRegs_mirrors _)
        fun stopped => Mirrors.bind (Mirrors.modify fun s => HwMon.mon_setGroup g _ s) fun _ =>
          Mirrors.failIf _ _) { s with msr := m }
    · have hm : (onMsr ((s.mon.groups g).pollCtx.forM (monCheckCtx p))).run s.mon
          = .error e { s.mon with msr := m } := zoom_error.2 ⟨m, hrun, rfl⟩
      rw [bind_of_error (hc.trans (zoom_error.2 ⟨m, hrun, rfl⟩)), bind_of_error hm]
      rfl

/-- Where there is enough memory, starts and stops do to the registers and the groups what they do
when memory is no concern. -/
theorem hwMonBackend_mirrors (p : Platform) (hw : CounterHw σ) (g : Nat) :
    (∀ cores event, Mirrors HwMon.mon ((hwMonBackend p hw).pqosMonStart .ample cores event g)
        (pqosMonStart p cores event g))
      ∧ Mirrors HwMon.mon ((hwMonBackend p hw).pqosMonStop g) (pqosMonStop p g) := by
  refine ⟨fun cores event => ?_, ?_⟩
  · unfold MonBackend.pqosMonStart pqosMonStart MonBackend.checkEvent
    simp only [bind_assoc]
    exact Mirrors.bind (Mirrors.failIf _ _) fun _ => Mirrors.get_bind fun s =>
      Mirrors.bind (Mirrors.failIf _ _) fun _ => Mirrors.bind (Mirrors.failIf _ _) fun _ =>
      Mirrors.bind (Mirrors.failIf _ _) fun _ => Mirrors.bind (Mirrors.failIf _ _) fun _ =>
      Mirrors.bind (hwMonStartMem_mirrors cores event g) fun _ =>
      Mirrors.modify fun s => HwMon.mon_setGroup g _ s
  · exact Mirrors.get_bind fun s => Mirrors.bind (Mirrors.failIf _ _) fun _ =>
      Mirrors.bind (Mirrors.failIf _ _) fun _ => hwMonStop_mirrors g

end Hw

end Pqos
