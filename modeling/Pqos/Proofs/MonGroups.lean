import Pqos.Proofs.HwMonGroups

/-!
# Monitoring groups on either interface

A group of the OS interface lives as one of the MSR interface does; what it holds are descriptors
and not RMIDs.
-/

namespace Pqos

open Prog

/-! ## The OS back end -/

section Os

variable {σ : Type} (p : Platform) (k : PerfKernel) (hw : CounterHw σ) (scale : Word → Word)
  {g : Nat} {s t : OsLife σ}

theorem os_confined {d : OsMonData} (h : t.groups = Function.update s.groups g d)
    (hd : d.valid = (s.groups g).valid ∨ d.valid = 0) :
    (osMonBackend p k hw scale).Confined g s t := by
  refine ⟨fun g' hg => ?_, ?_⟩
  · show (t.groups g').valid = (s.groups g').valid
    rw [h, Function.update_of_ne hg]
  · show (t.groups g).valid = (s.groups g).valid ∨ (t.groups g).valid = 0
    rw [h, Function.update_self]
    exact hd

/-- A program on a part of a group leaves the rest of it and the other groups. -/
theorem os_zoom_groups {τ α : Type} {get : OsLife σ → τ} {put : τ → OsLife σ → OsLife σ}
    (hput : ∀ m s, ∃ d, (put m s).groups = Function.update s.groups g d
      ∧ d.valid = (s.groups g).valid) (x : EStateM Err τ α) :
    Keeps (fun s t => ∃ d, t.groups = Function.update s.groups g d ∧ d.valid = (s.groups g).valid)
      (zoom get put x) :=
  Keeps.zoom (R := fun _ _ => True) (fun _ => trivial) fun u m _ => hput m u

theorem onCounters_groups {α : Type} (g : Nat) (x : EStateM Err OsMon α) :
    Keeps (fun s t : OsLife σ => ∃ d, t.groups = Function.update s.groups g d
      ∧ d.valid = (s.groups g).valid) (onCounters g x) :=
  os_zoom_groups (fun m s => ⟨{ s.groups g with
    fds := m.fds
    polled := { (s.groups g).polled with values := m.values } }, rfl, rfl⟩) x

theorem onCounters_confined {α : Type} (g : Nat) (x : EStateM Err OsMon α) :
    Keeps ((osMonBackend p k hw scale).Confined g) (onCounters g x) :=
  (onCounters_groups g x).mono fun h => by
    obtain ⟨d, hd, hv⟩ := h
    exact os_confined p k hw scale hd (Or.inl hv)

theorem osMonStart_confined (env : OsEnv) (cores : List Nat) (event : MonEvent) (g : Nat) :
    Keeps ((osMonBackend p k hw scale).Confined g) (osMonStart p k env cores event g) := by
  have hF : Frame ((osMonBackend p k hw scale).Confined g) := MonBackend.Confined.isFrame g
  unfold osMonStart
  exact Keeps.bind hF (Keeps.failIf hF _ _) fun _ => Keeps.bind hF (Keeps.failIf hF _ _) fun _ =>
    Keeps.bind hF (fun s => os_confined p k hw scale rfl (Or.inr rfl)) fun _ =>
    Keeps.bind hF (Keeps.failIf hF _ _) fun _ =>
    Keeps.bind hF (fun s => os_confined p k hw scale rfl (Or.inr rfl)) fun _ =>
    onCounters_confined p k hw scale g _

theorem osMonStartPid_confined (env : OsEnv) (g : Nat) :
    Keeps ((osMonBackend p k hw scale).Confined g) (osMonStartPid k env g) := by
  have hF : Frame ((osMonBackend p k hw scale).Confined g) := MonBackend.Confined.isFrame g
  intro s
  unfold osMonStartPid
  rw [get_bind]
  dsimp only
  rcases htasks : env.tasks with _ | tasks
  · exact hF.refl s
  rw [bind_of_ok (ofOption_ok.2 ⟨rfl, rfl⟩), final_failIf_bind]
  split_ifs
  · exact hF.refl s
  rw [final_failIf_bind]
  split_ifs
  · exact hF.refl s
  have hmap : (osMonBackend p k hw scale).Confined g s
      (s.setGroup g { s.groups g with tidMap := tidMapOf (s.groups g).pid tasks }) := by
    refine os_confined (d := { s.groups g with tidMap := tidMapOf (s.groups g).pid tasks }) p k hw
      scale rfl (Or.inl rfl)
  exact hF.trans hmap (onCounters_confined p k hw scale g _ _)

theorem osMonStopChecks_keeps : Keeps (fun s t : OsLife σ => t = s) (osMonStopChecks g) := by
  intro s
  unfold osMonStopChecks
  rw [get_bind]
  exact Keeps.failIf (Frame.eq id) _ _ s

theorem osMonStopUndo_groups (s : OsLife σ) :
    (final ((osMonStopUndo g).run s)).groups = Function.update s.groups g .zero := by
  let P (t : OsLife σ) : Prop := t.groups = Function.update s.groups g .zero
  unfold osMonStopUndo
  rw [get_bind]
  refine final_bind (P := P) (fun e t h => absurd h attempt_ne_error) fun r t h => ?_
  have hcleared : Keeps (fun u t : OsLife σ => t.groups = u.groups) (ofExcept r) :=
    Keeps.ofExcept (Frame.eq OsLife.groups) r
  obtain ⟨d, hd, -⟩ := (Keeps.attempt (onCounters_groups g _)).of_ok h
  calc (final ((ofExcept r : EStateM Err (OsLife σ) Unit).run (t.setGroup g .zero))).groups
      = Function.update t.groups g .zero := hcleared _
    _ = Function.update s.groups g .zero := by rw [hd, Function.update_idem]

theorem osPollGroup_marksKept (g : Nat) :
    Keeps (osMonBackend p k hw scale).MarksKept (osPollGroup hw scale g) := by
  have hF : Frame (osMonBackend p k hw scale).MarksKept := MonBackend.MarksKept.isFrame
  have hzoom (x : EStateM Err (Polled σ) Unit) : Keeps (osMonBackend p k hw scale).MarksKept
      (zoom (fun s => Polled.mk s.hw (s.groups g).polled)
        (fun t s => { s.setGroup g { s.groups g with polled := t.group } with hw := t.hw }) x) := by
    refine (os_zoom_groups (g := g) (fun m s => ⟨{ s.groups g with polled := m.group }, rfl, rfl⟩)
      x).mono fun {s t} h g' => ?_
    obtain ⟨d, hd, hv⟩ := h
    show (t.groups g').valid = (s.groups g').valid
    rw [hd]
    by_cases hg : g' = g
    · rw [hg, Function.update_self, hv]
    · rw [Function.update_of_ne hg]
  intro s
  exact Keeps.bind hF (Keeps.attempt (hzoom (pollPerfCounters hw scale (s.groups g).osGroup
    (s.groups g).fds))) (fun _ => Keeps.pure hF _) s

theorem osMonBackend_lawful : (osMonBackend p k hw scale).Lawful where
  valid_set g v s g' := by
    show (Function.update s.groups g _ g').valid = _
    split_ifs with hg
    · rw [hg, Function.update_self]
    · rw [Function.update_of_ne hg]
      rfl
  start := osMonStart_confined p k hw scale
  setPid pid event g s := os_confined p k hw scale rfl (Or.inr rfl)
  startPid := osMonStartPid_confined p k hw scale
  stopChecks g := osMonStopChecks_keeps.mono fun h g => by rw [h]
  stopUndo g s := os_confined p k hw scale (osMonStopUndo_groups s) (Or.inr rfl)
  stopUndo_clears g s := by
    show ((final ((osMonStopUndo g).run s)).groups g).valid = 0
    rw [osMonStopUndo_groups, Function.update_self]
    rfl
  poll groups := Keeps.forM MonBackend.MarksKept.isFrame fun g _ =>
    osPollGroup_marksKept p k hw scale g

end Os

/-! ## Both back ends -/

/-- Over any sequence of calls, whatever fails, the groups of either back end live as the library's
marks say; and on the MSR back end the cores of the valid groups carry their RMIDs. -/
theorem monGroups_lifeCycle {σ τ : Type} (p : Platform) (k : PerfKernel) (hw : CounterHw σ)
    (osHw : CounterHw τ) (scale : Word → Word) (calls : Nat → MonLibCall HwMem)
    (osCalls : Nat → MonLibCall OsEnv) (s : HwMon σ) (t : OsLife τ)
    (hs : ∀ g, ¬ (hwMonBackend p hw).Valid g s)
    (ht : ∀ g, ¬ (osMonBackend p k osHw scale).Valid g t) :
    ((hwMonBackend p hw).LifeCycle Unchanged calls s
        ∧ (p.RmidsFit → ∀ n, Associated p ((hwMonBackend p hw).after calls s n)))
      ∧ (osMonBackend p k osHw scale).LifeCycle (fun s t => t = s) osCalls t :=
  ⟨⟨MonBackend.lifeCycle (hwMonBackend_lawful p hw) Unchanged.isFrame
      (fun _ => hwMonStopChecks_keeps) calls hs,
    fun hfit => after_associated hfit calls hs⟩,
    MonBackend.lifeCycle (osMonBackend_lawful p k osHw scale) (Frame.eq id)
      (fun _ => osMonStopChecks_keeps) osCalls ht⟩

/-- Counters that cannot be read. -/
def deadHw : CounterHw Unit :=
  ⟨fun _ _ => throw (), fun _ _ _ => throw (), fun _ => throw (), fun _ => 0⟩

/-- A group starts, starts again, stops, and is polled when it has stopped. -/
def groupCalls {ε : Type} (env : ε) : Nat → MonLibCall ε
  | 0 => .start env [0, 1] monEventL3Occup 7
  | 1 => .start env [0] monEventL3Occup 7
  | 2 => .stop 7
  | _ => .poll [7]

def idleHw : HwMon Unit := ⟨⟨fun _ => 0, []⟩, (), fun _ => .zero⟩

/-- A kernel that supports every event and grants every request. -/
def grantAll : PerfKernel := ⟨fun _ => true, fun n => some (n + 3)⟩

def idleOs : OsLife Unit := ⟨[], (), fun _ => .zero⟩

theorem monGroups_lifeCycle_small :
    (((hwMonBackend monPlatform deadHw).LifeCycle Unchanged (groupCalls .ample) idleHw
        ∧ (monPlatform.RmidsFit → ∀ n, Associated monPlatform
          ((hwMonBackend monPlatform deadHw).after (groupCalls .ample) idleHw n)))
      ∧ (osMonBackend monPlatform grantAll deadHw id).LifeCycle (fun s t => t = s)
        (groupCalls ⟨true, none⟩) idleOs)
    ∧ (((hwMonBackend monPlatform deadHw).after (groupCalls .ample) idleHw 2).groups 7).data.Active
    ∧ ¬ (((hwMonBackend monPlatform deadHw).after (groupCalls .ample) idleHw 3).groups
      7).data.Active :=
  ⟨monGroups_lifeCycle monPlatform grantAll deadHw deadHw id (groupCalls .ample)
    (groupCalls ⟨true, none⟩) idleHw idleOs (fun _ => not_active_zero)
    (fun _ => show ¬ 0 = groupValidMarker by decide),
    by decide, by decide⟩

end Pqos
