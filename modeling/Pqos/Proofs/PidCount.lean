import Pqos.PidCount
import Pqos.Proofs.HwMonGroups
import Pqos.Proofs.Poll

/-!
# Where the count of a process comes from

A poll reads the count from whatever descriptor the group holds, and stores what it finds in its
buffer. The descriptor is 0 from a start to the tool's opening of one, so the count is one of the
group's own if and only if the poll comes after an opening and gets its eight bytes.
-/

namespace Pqos

open Prog

/-! ## What is read -/

/-- A machine that keeps what was read of descriptors: which, and the eight bytes if there were. -/
structure Recorded (σ : Type) where
  hw : σ
  reads : List (Int × Option Word)

section Recorded

variable {σ : Type} (hw : CounterHw σ)

def onRecorded {ε α : Type} (x : EStateM ε σ α) : EStateM ε (Recorded σ) α :=
  zoom Recorded.hw (fun h s => { s with hw := h }) x

def recorded : CounterHw (Recorded σ) where
  read lcore reg := onRecorded (hw.read lcore reg)
  write lcore reg val := onRecorded (hw.write lcore reg val)
  readFd fd := do
    let count ← attempt (onRecorded (hw.readFd fd))
    modify fun s => { s with reads := s.reads ++ [(fd, count.toOption)] }
    ofExcept count
  stale s := hw.stale s.hw

/-- The reads so far, and what a group holds of the count. -/
structure PidCount where
  reads : List (Int × Option Word)
  fdIns : Int
  count : Word
  delta : Word
deriving DecidableEq

def Polled.pidCount (s : Polled (Recorded σ)) : PidCount :=
  ⟨s.hw.reads, s.group.values.fdIns, s.group.values.ipcRetiredPid,
    s.group.values.ipcRetiredDeltaPid⟩

def HwMon.pidCount (g : Nat) (s : HwMon (Recorded σ)) : PidCount :=
  Polled.pidCount ⟨s.hw, (s.groups g).polled⟩

/-- A poll reads no count and stores none, or it reads one of a descriptor that was opened, gets
eight bytes and stores them. -/
def CountSound (opened : List Nat) (c c' : PidCount) : Prop :=
  (c'.reads = c.reads ∧ c'.count = c.count ∧ c'.delta = c.delta)
    ∨ ∃ fd ∈ opened, ∃ w, c'.reads = c.reads ++ [((fd : Int), some w)] ∧ c'.count = w
      ∧ c'.delta = w - c.count

/-- What a poll reads before it comes to the count of the process, if the group's event has one. -/
def countReading (d : MonData) : EStateM Err σ (Option (List (Word × Word))) := do
  let _ ← readIf d.event monEventL3Occup (monTotal hw d monEventL3Occup)
  let _ ← readIf d.event (monEventLmemBw ||| monEventRmemBw) (monTotal hw d monEventLmemBw)
  let _ ← readIf d.event (monEventTmemBw ||| monEventRmemBw) (monTotal hw d monEventTmemBw)
  readIf d.event perfEventIpc (d.cores.mapM (ipcCore hw))

/-- Where something was read to its end. -/
def reached {ε α : Type} : EStateM.Result ε σ (Option α) → Option σ
  | .ok (some _) s => some s
  | .ok none _ => none
  | .error _ _ => none

/-- The machine as a poll finds it when it comes to the count of the process. -/
def atCount (d : MonData) (s : σ) : Option σ := reached ((countReading hw d).run s)

end Recorded

/-! ## One poll -/

section Poll

variable {σ : Type} {hw : CounterHw σ}

/-- Nothing was read of a descriptor. -/
def NoReads (s t : Recorded σ) : Prop := t.reads = s.reads

theorem onRecorded_noReads {ε α : Type} (x : EStateM ε σ α) : Keeps NoReads (onRecorded x) :=
  Keeps.zoom (R := fun _ _ => True) (fun _ => trivial) fun _ _ _ => rfl

theorem hwRead_noReads (lcore reg : Nat) : Keeps NoReads (hwRead (recorded hw) lcore reg) :=
  (onRecorded_noReads (hw.read lcore reg)).mapError _

theorem monReadQmc_noReads (lcore retries : Nat) :
    Keeps NoReads (monReadQmc (recorded hw) lcore retries) := by
  have hF : Frame (@NoReads σ) := Frame.eq Recorded.reads
  induction retries with
  | zero =>
    exact .bind hF (hwRead_noReads _ _) fun _ => .bind hF (.failIf hF _ _) fun _ => .pure hF _
  | succ retries ih =>
    refine .bind hF (hwRead_noReads _ _) fun val => .bind hF (.failIf hF _ _) fun _ => ?_
    split_ifs
    · exact ih
    · exact .pure hF _

theorem monTotal_noReads (d : MonData) (event : MonEvent) :
    Keeps NoReads (monTotal (recorded hw) d event) := by
  have hF : Frame (@NoReads σ) := Frame.eq Recorded.reads
  refine .map hF (.mapM hF fun ctx _ => ?_)
  exact .bind hF ((onRecorded_noReads (hw.write _ _ _)).mapError _) fun _ =>
    .bind hF (monReadQmc_noReads _ _) fun _ => .pure hF _

theorem ipcCores_noReads (d : MonData) : Keeps NoReads (d.cores.mapM (ipcCore (recorded hw))) := by
  have hF : Frame (@NoReads σ) := Frame.eq Recorded.reads
  exact .mapM hF fun _ _ => .bind hF (hwRead_noReads _ _) fun _ =>
    .bind hF (hwRead_noReads _ _) fun _ => .pure hF _

theorem llcMissSum_noReads (d : MonData) : Keeps NoReads (llcMissSum (recorded hw) d) := by
  have hF : Frame (@NoReads σ) := Frame.eq Recorded.reads
  exact .map hF (.mapM hF fun _ _ => hwRead_noReads _ _)

variable (hw) in
/-- What a poll that comes to the count at `at` makes of it. -/
def countNext (at' : Option (Recorded σ)) (c : PidCount) : PidCount :=
  at'.elim c fun m =>
    let r := (hw.readFd c.fdIns).run m.hw
    let w := (value r).getD (hw.stale (final r))
    ⟨c.reads ++ [(c.fdIns, value r)], c.fdIns, w, w - c.count⟩

theorem recorded_readFd (fd : Int) (m : Recorded σ) :
    (attempt ((recorded hw).readFd fd) : EStateM Err (Recorded σ) (Except Unit Word)).run m
      = .ok ((value ((hw.readFd fd).run m.hw)).elim (.error ()) .ok)
        ⟨final ((hw.readFd fd).run m.hw), m.reads ++ [(fd, value ((hw.readFd fd).run m.hw))]⟩ := by
  have hrun : (attempt (onRecorded (hw.readFd fd)) :
      EStateM Unit (Recorded σ) (Except Unit Word)).run m
      = .ok ((value ((hw.readFd fd).run m.hw)).elim (.error ()) .ok)
        ⟨final ((hw.readFd fd).run m.hw), m.reads⟩ := by
    rw [attempt_run, onRecorded, zoom_run]
    rcases (hw.readFd fd).run m.hw with ⟨w, h⟩ | ⟨⟨⟩, h⟩ <;> rfl
  rw [attempt_run, recorded]
  dsimp only
  rw [bind_of_ok hrun]
  rcases (hw.readFd fd).run m.hw with ⟨w, h⟩ | ⟨⟨⟩, h⟩ <;> rfl

theorem readCount_recorded (fd : Int) (m : Recorded σ) :
    (readCount (recorded hw) fd).run m
      = .ok ((value ((hw.readFd fd).run m.hw)).getD (hw.stale (final ((hw.readFd fd).run m.hw))))
        ⟨final ((hw.readFd fd).run m.hw), m.reads ++ [(fd, value ((hw.readFd fd).run m.hw))]⟩ := by
  unfold readCount
  rw [bind_of_ok (recorded_readFd fd m)]
  cases value ((hw.readFd fd).run m.hw) <;> rfl

/-- What a part of a poll makes of the count is settled by whether it comes to it. -/
abbrev MovesCount (hw : CounterHw σ) {α : Type} :
    EStateM Err (Polled (Recorded σ)) Unit → EStateM Err (Recorded σ) (Option α) → Prop :=
  Moves Polled.pidCount fun r => countNext hw (reached r)

theorem pidCount_congr {h h' : Recorded σ} (hr : NoReads h h') (v : PollValues) :
    (Polled.mk h' v).pidCount = (Polled.mk h v).pidCount := by
  unfold Polled.pidCount
  dsimp only
  rw [hr]

/-- Another event's block reads no descriptor and stores nothing of the count. -/
theorem pollEvent_pidCount {α : Type} {event mask : MonEvent} {x : EStateM Err (Recorded σ) α}
    {store : α → EventValues → EventValues} (hx : Keeps NoReads x)
    (hstore : ∀ h a v, (Polled.mk h { v with values := store a v.values }).pidCount
      = (Polled.mk h v : Polled (Recorded σ)).pidCount) :
    Keeps (fun s t : Polled (Recorded σ) => t.pidCount = s.pidCount)
      (pollEvent event mask (fun _ => x) store) := by
  intro s
  have hkept : Keeps NoReads (readIf event mask x) := by
    unfold readIf
    split_ifs
    · exact .pure (Frame.eq Recorded.reads) _
    · exact .map (Frame.eq Recorded.reads) hx
  have hreads := hkept s.hw
  rw [pollEvent_run]
  rcases hr : (readIf event mask x).run s.hw with ⟨r | a, h⟩ | ⟨e, h⟩ <;> rw [hr] at hreads
  · exact pidCount_congr hreads s.group
  · exact (hstore h a s.group).trans (pidCount_congr hreads s.group)
  · exact pidCount_congr hreads s.group

theorem reportFirst_pidCount (h : Recorded σ) (v : PollValues) :
    (Polled.mk h (reportFirst v)).pidCount = (Polled.mk h v).pidCount := by
  unfold reportFirst
  split_ifs <;> rfl

/-- The cores' block, and what comes after it. -/
theorem movesCount_ipc (d : MonData) : MovesCount hw
    (pollEvent d.event perfEventIpc (fun pv => ipcSums (recorded hw) d pv.fdIns) storeIpc >>=
      fun _ => pollEvent d.event perfEventLlcMiss (fun _ => llcMissSum (recorded hw) d)
        storeLlcMisses >>= fun _ => modify fun s => { s with group := reportFirst s.group })
    (readIf d.event perfEventIpc (d.cores.mapM (ipcCore (recorded hw)))) := by
  intro s
  have hlater : Keeps (fun s t : Polled (Recorded σ) => t.pidCount = s.pidCount)
      (pollEvent d.event perfEventLlcMiss (fun _ => llcMissSum (recorded hw) d) storeLlcMisses >>=
        fun _ => modify fun s => { s with group := reportFirst s.group }) :=
    .bind (Frame.eq Polled.pidCount) (pollEvent_pidCount (llcMissSum_noReads d) fun _ _ _ => rfl)
      fun _ s => reportFirst_pidCount s.hw s.group
  have hcores : NoReads s.hw (final ((d.cores.mapM (ipcCore (recorded hw))).run s.hw)) :=
    ipcCores_noReads d s.hw
  rw [EStateM.run_bind, pollEvent_run]
  unfold readIf
  split_ifs with hevent
  · exact hlater s
  · rw [map_eq_pure_bind, map_eq_pure_bind, EStateM.run_bind, EStateM.run_bind, ipcSums,
      EStateM.run_bind]
    rcases hr : (d.cores.mapM (ipcCore (recorded hw))).run s.hw with ⟨sums, m⟩ | ⟨e, m⟩ <;>
      rw [hr] at hcores
    · dsimp only
      rw [bind_of_ok (readCount_recorded s.group.values.fdIns m)]
      refine (hlater _).trans ?_
      change PidCount.mk (m.reads ++ _) _ _ _ = _
      rw [show m.reads = s.hw.reads from hcores]
      rfl
    · exact pidCount_congr hcores s.group

theorem pqosCorePoll_pidCount (p : Platform) (d : MonData) (s : Polled (Recorded σ)) :
    (final ((pqosCorePoll (recorded hw) p d).run s)).pidCount
      = countNext hw (atCount (recorded hw) d s.hw) s.pidCount := by
  have hmoves : MovesCount hw (pqosCorePoll (recorded hw) p d) (countReading (recorded hw) d) := by
    unfold pqosCorePoll countReading
    refine .pollEvent_bind (.pollEvent_bind (.pollEvent_bind (.pollPure_bind (movesCount_ipc d) ?_)
      ?_ ?_) ?_ ?_) ?_ ?_
    all_goals first
      | exact fun _ _ _ => rfl
      | exact pollEvent_pidCount (monTotal_noReads d _) fun _ _ _ => rfl
      | exact pollEvent_pidCount (.pure (Frame.eq Recorded.reads) _) fun _ _ _ => rfl
  exact hmoves s

theorem hwPollGroup_run (hw' : CounterHw (Recorded σ)) (p : Platform) (g : Nat)
    (s : HwMon (Recorded σ)) : ∃ t, t = final ((pqosCorePoll hw' p (s.groups g).data).run
        ⟨s.hw, (s.groups g).polled⟩)
      ∧ (hwPollGroup p hw' g).run s
        = .ok () { s.setGroup g { s.groups g with polled := t.group } with hw := t.hw } := by
  refine ⟨_, rfl, ?_⟩
  unfold hwPollGroup
  rw [get_bind, EStateM.run_bind, attempt_run, zoom_run]
  rcases (pqosCorePoll hw' p (s.groups g).data).run ⟨s.hw, (s.groups g).polled⟩
    with ⟨⟨⟩, t⟩ | ⟨e, t⟩ <;> rfl

/-- A poll of a group moves the group's count on, and no other's descriptor. -/
theorem hwPollGroup_pidCount (p : Platform) (g : Nat) (s : HwMon (Recorded σ)) :
    (final ((hwPollGroup p (recorded hw) g).run s)).pidCount g
      = countNext hw (atCount (recorded hw) (s.groups g).data s.hw) (s.pidCount g) := by
  obtain ⟨t, ht, hrun⟩ := hwPollGroup_run (recorded hw) p g s
  have hcount : t.pidCount
      = countNext hw (atCount (recorded hw) (s.groups g).data s.hw) (s.pidCount g) := by
    rw [ht]
    exact pqosCorePoll_pidCount p (s.groups g).data ⟨s.hw, (s.groups g).polled⟩
  rw [hrun]
  refine Eq.trans ?_ hcount
  unfold HwMon.pidCount
  rw [final_ok]
  dsimp only
  rw [HwMon.setGroup_groups, Function.update_self]

/-- The descriptors of the groups stay. -/
def FdsKept (s t : HwMon (Recorded σ)) : Prop :=
  ∀ g, (t.groups g).polled.values.fdIns = (s.groups g).polled.values.fdIns

theorem FdsKept.isFrame : Frame (@FdsKept σ) :=
  Frame.all fun _ => Frame.eq _

theorem hwPollGroup_fdsKept (p : Platform) (g : Nat) :
    Keeps FdsKept (hwPollGroup p (recorded hw) g) := by
  intro s g'
  by_cases hg : g' = g
  · subst hg
    have hfd : ∀ (at' : Option (Recorded σ)) c, (countNext hw at' c).fdIns = c.fdIns := by
      intro at' c
      cases at' <;> rfl
    exact (congrArg PidCount.fdIns (hwPollGroup_pidCount p g' s)).trans (hfd _ _)
  · obtain ⟨t, -, hrun⟩ := hwPollGroup_run (recorded hw) p g s
    rw [hrun, final_ok]
    dsimp only
    rw [HwMon.setGroup_groups, Function.update_of_ne hg]

/-- What a poll makes of the count is sound if and only if it does not come to it or finds eight
bytes behind a descriptor that was opened. -/
theorem countSound_iff {opened : List Nat} {c : PidCount} {at' : Option (Recorded σ)}
    (hfd : c.fdIns = opened.head?.elim 0 Int.ofNat) :
    CountSound opened c (countNext hw at' c) ↔ ∀ m, at' = some m →
      ∃ fd w, opened.head? = some fd ∧ value ((hw.readFd fd).run m.hw) = some w := by
  cases at' with
  | none =>
    exact iff_of_true (Or.inl ⟨rfl, rfl, rfl⟩) fun m hm => absurd hm.symm (Option.some_ne_none m)
  | some m =>
    constructor
    · rintro (⟨hreads, -⟩ | ⟨fd, hmem, w, hreads, -⟩) _ ⟨⟩
      · simp [countNext] at hreads
      · have hlast : (c.fdIns, value ((hw.readFd c.fdIns).run m.hw)) = ((fd : Int), some w) :=
          List.singleton_inj.1 (List.append_cancel_left hreads)
        obtain ⟨fd', rest, rfl⟩ := List.exists_cons_of_ne_nil (List.ne_nil_of_mem hmem)
        rw [List.head?_cons, Option.elim_some] at hfd
        refine ⟨fd', w, rfl, ?_⟩
        rw [hfd] at hlast
        exact (Prod.mk.inj hlast).2
    · intro hread
      obtain ⟨fd, w, hhead, hvalue⟩ := hread m rfl
      rw [hhead, Option.elim_some] at hfd
      refine Or.inr ⟨fd, List.mem_of_mem_head? hhead, w, ?_⟩
      unfold countNext
      dsimp only [Option.elim_some]
      rw [hfd, show Int.ofNat fd = (fd : Int) from rfl, hvalue]
      exact ⟨rfl, rfl, rfl⟩

end Poll

/-! ## A run -/

section Run

variable {σ : Type} {p : Platform} {hw : CounterHw σ} {g : Nat} {s t : HwMon σ}

theorem hwMonStartMem_polled {mem : HwMem} {cores : List Nat} {event : MonEvent} {u : Unit}
    (h : (hwMonStartMem p mem cores event g).run s = .ok u t) : (t.groups g).polled = .zero := by
  unfold hwMonStartMem onRegs at h
  simp only [bind_ok, failIf_ok, zoom_ok, attempt_ok] at h
  obtain ⟨_, s, ⟨-, rfl⟩, ctxs, _, ⟨m₁, -, rfl⟩, _, s₂, hclear, _, _, ⟨-, rfl⟩, r, _,
    ⟨m₂, hr, rfl⟩, h⟩ := h
  cases hclear
  rcases hr with ⟨_, rfl, -⟩ | ⟨e, rfl, -⟩
  · cases h
    show (Function.update (Function.update s.groups g HwGroup.zero) g _ g).polled = _
    rw [Function.update_self]
    exact congrArg HwGroup.polled (Function.update_self g HwGroup.zero s.groups)
  · obtain ⟨_, _, -, h⟩ := bind_ok.1 h
    cases h

/-- A call that starts a group clears its values. -/
theorem starts_polled {c : MonLibCall HwMem} (hstarts : c.starts = some g)
    (hok : value (((hwMonBackend p hw).call c).run s) = some ()) :
    ((final (((hwMonBackend p hw).call c).run s)).groups g).polled = .zero := by
  obtain ⟨t, ht⟩ := value_eq_some.1 hok
  rw [ht, final_ok]
  cases c with
  | start mem cores event g₀ =>
    obtain rfl : g₀ = g := Option.some.inj hstarts
    rcases MonBackend.pqosMonStart_cases (b := hwMonBackend p hw) mem cores event g₀ s with
      ⟨e, he⟩ | ⟨-, hrun⟩
    · cases he.symm.trans ht
    · obtain ⟨_, u, hstart, hmark⟩ := bind_ok.1 (hrun.symm.trans ht)
      cases hmark
      show (Function.update u.groups g₀ _ g₀).polled = _
      rw [Function.update_self]
      exact hwMonStartMem_polled hstart
  | startPid mem pid event g₀ =>
    rcases MonBackend.pqosMonStartPid_cases (b := hwMonBackend p hw) mem pid event g₀ s with
      ⟨e, he⟩ | ⟨-, hos, -⟩
    · cases he.symm.trans ht
    · cases hos
  | stop => cases hstarts
  | poll => cases hstarts

/-- A start of another group leaves the group alone, and so does one that is rejected. -/
theorem pqosMonStart_group (hvalid : (hwMonBackend p hw).Valid g s) (mem : HwMem) (cores : List Nat)
    (event : MonEvent) (g₀ : Nat) :
    (final (((hwMonBackend p hw).pqosMonStart mem cores event g₀).run s)).groups g
    = s.groups g := by
  rcases MonBackend.pqosMonStart_cases (b := hwMonBackend p hw) mem cores event g₀ s with
    ⟨e, he⟩ | ⟨hnot, hrun⟩
  · rw [he, final_error]
  · have hg : g ≠ g₀ := fun h => hnot (h ▸ hvalid)
    have hother : Keeps (fun s t : HwMon σ => t.groups g = s.groups g)
        ((hwMonBackend p hw).marked g₀ (hwMonStartMem p mem cores event g₀)) :=
      .bind (Frame.eq fun s => s.groups g)
        ((hwMonStartMem_onGroup mem cores event g₀).mono fun h => h.1 g hg)
        fun _ _ => Function.update_of_ne hg _ _
    rw [hrun]
    exact hother s

theorem pqosMonStop_group {g₀ : Nat} (hnot : ¬ (hwMonBackend p hw).Undoes g (.stop g₀) s) :
    (final (((hwMonBackend p hw).pqosMonStop g₀).run s)).groups g = s.groups g := by
  rcases MonBackend.pqosMonStop_cases (b := hwMonBackend p hw) g₀ s with
    ⟨-, e, t, hrun, rfl | hchecks⟩ | ⟨hundoes, t, hchecks, hrun⟩
  · rw [hrun, final_error]
  · rw [hrun, final_error, (hwMonStopChecks_keeps.of_error hchecks).2.1]
  · have hg : g ≠ g₀ := by
      rintro rfl
      exact hnot hundoes
    have hcleared := hwMonStopUndo_groups (p := p) (g := g₀) t
    rw [hrun]
    refine (congrFun hcleared g).trans ?_
    rw [Function.update_of_ne hg, (hwMonStopChecks_keeps.of_ok hchecks).2.1]

/-- What a call leaves of a valid group that it does not stop. -/
theorem call_fdIns {s : HwMon (Recorded σ)} {hw : CounterHw σ} {c : MonLibCall HwMem}
    (hvalid : (hwMonBackend p (recorded hw)).Valid g s)
    (hnot : ¬ (hwMonBackend p (recorded hw)).Undoes g c s) :
    ((final (((hwMonBackend p (recorded hw)).call c).run s)).groups g).polled.values.fdIns
      = (s.groups g).polled.values.fdIns := by
  let fdIns (d : HwGroup) : Int := d.polled.values.fdIns
  cases c with
  | start mem cores event g₀ =>
    exact congrArg fdIns (pqosMonStart_group hvalid mem cores event g₀)
  | startPid mem pid event g₀ =>
    rcases MonBackend.pqosMonStartPid_cases (b := hwMonBackend p (recorded hw)) mem pid event g₀ s
      with ⟨e, he⟩ | ⟨-, hos, -⟩
    · exact congrArg (fun r => fdIns ((final r).groups g)) he
    · cases hos
  | stop g₀ => exact congrArg fdIns (pqosMonStop_group hnot)
  | poll groups =>
    rcases MonBackend.pqosMonPoll_cases (b := hwMonBackend p (recorded hw)) groups s with
      ⟨e, he⟩ | ⟨-, hrun⟩
    · exact congrArg (fun r => fdIns ((final r).groups g)) he
    · refine (congrArg (fun r => fdIns ((final r).groups g)) hrun).trans ?_
      exact Keeps.forM FdsKept.isFrame (fun g _ => hwPollGroup_fdsKept p g) s g

/-- The descriptor of a valid group is the last that was opened for it since its start, or 0. -/
theorem stepped_fdIns {s : HwMon (Recorded σ)} {hw : CounterHw σ} {steps : Nat → MonStep}
    (h0 : ¬ (hwMonBackend p (recorded hw)).Valid g s) (n : Nat)
    (hvalid : (hwMonBackend p (recorded hw)).Valid g (stepped p (recorded hw) steps s n)) :
    ((stepped p (recorded hw) steps s n).groups g).polled.values.fdIns
      = (openedFor p (recorded hw) steps s g n).head?.elim 0 Int.ofNat := by
  induction n with
  | zero => exact absurd hvalid h0
  | succ n ih =>
    rw [stepped, openedFor]
    rw [stepped] at hvalid
    generalize stepped p (recorded hw) steps s n = t at ih hvalid ⊢
    cases hstep : steps n with
    | opens g' fd =>
      rw [hstep] at hvalid
      by_cases hg : g' = g
      · subst hg
        rw [MonStep.opened, if_pos rfl]
        exact congrArg (fun d : HwGroup => d.polled.values.fdIns)
          (Function.update_self g' _ t.groups)
      · have hother : (openIns g' fd t).groups g = t.groups g :=
          Function.update_of_ne (Ne.symm hg) _ _
        have hdata : (hwMonBackend p (recorded hw)).Valid g t := by
          refine Eq.trans ?_ hvalid
          exact congrArg (fun d : HwGroup => d.data.valid) hother.symm
        rw [MonStep.opened, if_neg hg, ← ih hdata]
        exact congrArg (fun d : HwGroup => d.polled.values.fdIns) hother
    | call c =>
      rw [hstep] at hvalid
      rw [MonStep.opened]
      by_cases hstarts : c.starts = some g
        ∧ value (((hwMonBackend p (recorded hw)).call c).run t) = some ()
      · rw [if_pos hstarts]
        obtain ⟨hc, hok⟩ := hstarts
        exact congrArg (fun v : PollValues => v.values.fdIns) (starts_polled hc hok)
      · rw [if_neg hstarts]
        have hnot : ¬ (hwMonBackend p (recorded hw)).Starts g c t := fun h =>
          hstarts ⟨h.1, value_eq_some.2 h.2⟩
        obtain ⟨hold, hundoes⟩ :=
          ((MonBackend.call_valid (hwMonBackend_lawful p (recorded hw)) c t g).1
          hvalid).resolve_left hnot
        exact (call_fdIns hold hundoes).trans (ih hold)

/-- In a run of calls and of openings, every poll of a group reads the count of the process and
stores it as it should if and only if every poll that comes to the count finds eight bytes behind a
descriptor that was opened for the group since its start. -/
theorem pidCount_sound_iff (hw : CounterHw σ) (steps : Nat → MonStep) {s : HwMon (Recorded σ)}
    (h0 : ∀ g, ¬ (hwMonBackend p (recorded hw)).Valid g s) :
    (∀ n g t, PollBegins p (recorded hw) steps s n g t →
        CountSound (openedFor p (recorded hw) steps s g n) (t.pidCount g)
          ((final ((hwPollGroup p (recorded hw) g).run t)).pidCount g))
      ↔ ∀ n g t, PollBegins p (recorded hw) steps s n g t →
        ∀ m, atCount (recorded hw) (t.groups g).data t.hw = some m →
          ∃ fd w, (openedFor p (recorded hw) steps s g n).head? = some fd
            ∧ value ((hw.readFd fd).run m.hw) = some w := by
  refine forall₃_congr fun n g t => forall_congr' fun hbegins => ?_
  rw [hwPollGroup_pidCount]
  refine countSound_iff ?_
  obtain ⟨before, after, hstep, hok, rfl⟩ := hbegins
  have hkept : FdsKept (stepped p (recorded hw) steps s n) (final
      ((before.forM (hwPollGroup p (recorded hw))).run (stepped p (recorded hw) steps s n))) :=
    Keeps.forM FdsKept.isFrame (fun g _ => hwPollGroup_fdsKept p g) _
  refine (hkept g).trans (stepped_fdIns (h0 g) n ?_)
  by_contra hvalid
  have hmem : g ∈ before ++ g :: after := List.mem_append_right before List.mem_cons_self
  obtain ⟨e, he⟩ := MonBackend.poll_rejected hmem hvalid
  rw [he] at hok
  cases hok

end Run

/-! ## Two runs -/

def ipcPlatform : Platform := smallPlatform
  [⟨true, .mon ⟨4, [⟨monEventL3Occup, 4, true, 65536⟩, ⟨perfEventIpc, 0, true, 1⟩]⟩⟩]

/-- The count of a process is behind descriptor 5. -/
def processHw : CounterHw Unit where
  read _ _ := return 0
  write _ _ _ := return ()
  readFd fd := if fd = 5 then return 800 else throw ()
  stale _ := 0xdead

def idleRecorded : HwMon (Recorded Unit) := ⟨⟨fun _ => 0, []⟩, ⟨(), []⟩, fun _ => .zero⟩

/-- The tool opens the counter before it polls. -/
def openedSteps : Nat → MonStep
  | 0 => .call (.start .ample [0] (monEventL3Occup ||| perfEventIpc) 7)
  | 1 => .opens 7 5
  | _ => .call (.poll [7])

/-- No counter is opened. -/
def unopenedSteps : Nat → MonStep
  | 0 => .call (.start .ample [0] (monEventL3Occup ||| perfEventIpc) 7)
  | _ => .call (.poll [7])

theorem pidCount_sound_iff_opened :
    ((∀ n g t, PollBegins ipcPlatform (recorded processHw) openedSteps idleRecorded n g t →
        CountSound (openedFor ipcPlatform (recorded processHw) openedSteps idleRecorded g n)
          (t.pidCount g)
          ((final ((hwPollGroup ipcPlatform (recorded processHw) g).run t)).pidCount g))
      ↔ ∀ n g t, PollBegins ipcPlatform (recorded processHw) openedSteps idleRecorded n g t →
        ∀ m, atCount (recorded processHw) (t.groups g).data t.hw = some m →
          ∃ fd w, (openedFor ipcPlatform (recorded processHw) openedSteps idleRecorded g n).head?
              = some fd
            ∧ value ((processHw.readFd fd).run m.hw) = some w)
    ∧ ((stepped ipcPlatform (recorded processHw) openedSteps idleRecorded 3).pidCount 7)
      = ⟨[(5, some 800)], 5, 800, 800⟩ :=
  ⟨pidCount_sound_iff processHw openedSteps fun _ => not_active_zero, by decide⟩

/-- The first poll of the group reads descriptor 0, and takes what was in its buffer for the
count. -/
theorem pidCount_unopened :
    ∃ t, PollBegins ipcPlatform (recorded processHw) unopenedSteps idleRecorded 1 7 t
      ∧ ((final ((hwPollGroup ipcPlatform (recorded processHw) 7).run t)).pidCount 7)
        = ⟨[(0, none)], 0, 0xdead, 0xdead⟩
      ∧ ¬ CountSound (openedFor ipcPlatform (recorded processHw) unopenedSteps idleRecorded 7 1)
        (t.pidCount 7)
        ((final ((hwPollGroup ipcPlatform (recorded processHw) 7).run t)).pidCount 7) := by
  have hnone : openedFor ipcPlatform (recorded processHw) unopenedSteps idleRecorded 7 1 = [] := by
    decide
  refine ⟨_, ⟨[], [], rfl, by decide, rfl⟩, by decide, ?_⟩
  rw [hnone]
  rintro (⟨hreads, -⟩ | ⟨fd, hmem, -⟩)
  · exact absurd hreads (by decide)
  · exact absurd hmem List.not_mem_nil

end Pqos
