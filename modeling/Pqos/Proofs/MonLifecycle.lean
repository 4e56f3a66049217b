import Pqos.Lib.Latch
import Pqos.MonApi

/-!
# The life of a monitoring group

A back end may take the mark of the group it is called for away, and touches no other mark. So a
group's mark is a latch: a start that succeeds sets it, and a stop that gets past its checks clears
it.
-/

namespace Pqos

open Prog

namespace MonBackend

variable {σ ε : Type} (b : MonBackend σ ε)

/-- The library's sign that a group is being monitored. -/
def Valid (g : Nat) (s : σ) : Prop := b.valid g s = groupValidMarker

/-- No mark changed. -/
def MarksKept (s t : σ) : Prop := ∀ g, b.valid g t = b.valid g s

/-- No mark changed but that of `g`, which may have been taken away. -/
def Confined (g : Nat) (s t : σ) : Prop :=
  (∀ g' ≠ g, b.valid g' t = b.valid g' s) ∧ (b.valid g t = b.valid g s ∨ b.valid g t = 0)

/-- What a back end does to the marks. -/
structure Lawful : Prop where
  valid_set : ∀ g v s g', b.valid g' (b.setValid g v s) = if g' = g then v else b.valid g' s
  start : ∀ env cores event g, Keeps (b.Confined g) (b.start env cores event g)
  setPid : ∀ pid event g s, b.Confined g s (b.setPid pid event g s)
  startPid : ∀ env g, Keeps (b.Confined g) (b.startPid env g)
  stopChecks : ∀ g, Keeps b.MarksKept (b.stopChecks g)
  stopUndo : ∀ g, Keeps (b.Confined g) (b.stopUndo g)
  stopUndo_clears : ∀ g s, b.valid g (final ((b.stopUndo g).run s)) = 0
  poll : ∀ groups, Keeps b.MarksKept (b.poll groups)

/-- The call is a start of `g`, and returns `PQOS_RETVAL_OK`. -/
def Starts (g : Nat) (call : MonLibCall ε) (s : σ) : Prop :=
  call.starts = some g ∧ ∃ t, (b.call call).run s = .ok () t

/-- The call is a stop of `g` that has nothing left to check. -/
def Undoes (g : Nat) (call : MonLibCall ε) (s : σ) : Prop :=
  call = .stop g ∧ b.Valid g s ∧ b.initDone = true ∧ ∃ t, (b.stopChecks g).run s = .ok () t

variable {b} {g : Nat} {s t : σ} {u : Unit} {e : Err}

theorem MarksKept.isFrame : Frame b.MarksKept := Frame.all fun g => Frame.eq (b.valid g)

theorem MarksKept.confined (h : b.MarksKept s t) : b.Confined g s t :=
  ⟨fun g' _ => h g', Or.inl (h g)⟩

theorem Confined.isFrame (g : Nat) : Frame (b.Confined g) :=
  (Frame.all fun g' => Frame.all fun _ => Frame.eq (b.valid g')).and
    (Frame.eqOr (b.valid g) fun valid => valid = 0)

theorem Confined.valid_ne (h : b.Confined g s t) {g' : Nat} (hg : g' ≠ g) :
    b.Valid g' t ↔ b.Valid g' s := by
  rw [Valid, Valid, h.1 g' hg]

/-- A mark that was not there does not appear. -/
theorem Confined.not_valid (h : b.Confined g s t) (hs : ¬ b.Valid g s) : ¬ b.Valid g t := by
  unfold Valid at hs ⊢
  rcases h.2 with h₂ | h₂
  · rwa [h₂]
  · rw [h₂]
    decide

/-! ## One call -/

theorem checkEvent_run (event : MonEvent) (s : σ) :
    (checkEvent event : EStateM Err σ Unit).run s = .error .param s
      ∨ (checkEvent event : EStateM Err σ Unit).run s = .ok () s := by
  unfold checkEvent
  rw [failIf_bind_run, failIf_run]
  split_ifs
  · exact Or.inl rfl
  · exact Or.inl rfl
  · exact Or.inr rfl

/-- What is left of a start behind its checks. -/
def marked (b : MonBackend σ ε) (g : Nat) (x : EStateM Err σ Unit) : EStateM Err σ Unit := do
  x
  modify (b.setValid g groupValidMarker)

/-- The last checks of a start are on the events and on the library. -/
theorem lastChecks_guards (event : MonEvent) (x : EStateM Err σ Unit) : Guards
    (do
      checkEvent event
      failIf (b.initDone = false) Err.init
      x) x := by
  intro s
  rcases checkEvent_run event s with he | he
  · exact Or.inl ⟨_, bind_of_error he⟩
  · rw [bind_of_ok he]
    exact guards_failIf_bind (fun _ => Guards.refl x) s

/-- A start is rejected, or the group is free for it. -/
theorem pqosMonStart_cases (env : ε) (cores : List Nat) (event : MonEvent) (g : Nat) (s : σ) :
    (∃ e, (b.pqosMonStart env cores event g).run s = .error e s)
      ∨ ¬ b.Valid g s ∧ (b.pqosMonStart env cores event g).run s
        = (b.marked g (b.start env cores event g)).run s := by
  unfold pqosMonStart
  rw [failIf_bind_run]
  split_ifs with harg
  · exact Or.inl ⟨_, rfl⟩
  rw [get_bind, failIf_bind_run]
  split_ifs with hvalid
  · exact Or.inl ⟨_, rfl⟩
  rcases b.lastChecks_guards event (b.marked g (b.start env cores event g)) s with hrun | hrun
  · exact Or.inl hrun
  · exact Or.inr ⟨hvalid, hrun⟩

theorem pqosMonStartPid_cases (env : ε) (pid : Int) (event : MonEvent) (g : Nat) (s : σ) :
    (∃ e, (b.pqosMonStartPid env pid event g).run s = .error e s)
      ∨ ¬ b.Valid g s ∧ b.interface = .os ∧ (b.pqosMonStartPid env pid event g).run s
        = (b.marked g (b.startPid env g)).run (b.setPid pid event g s) := by
  unfold pqosMonStartPid
  rw [failIf_bind_run]
  split_ifs with harg
  · exact Or.inl ⟨_, rfl⟩
  rw [get_bind, failIf_bind_run]
  split_ifs with hvalid
  · exact Or.inl ⟨_, rfl⟩
  rw [failIf_bind_run]
  split_ifs with hos
  · exact Or.inl ⟨_, rfl⟩
  rcases b.lastChecks_guards event
    (do modify (b.setPid pid event g); b.marked g (b.startPid env g)) s with hrun | hrun
  · exact Or.inl hrun
  · exact Or.inr ⟨hvalid, not_not.1 hos, hrun⟩

/-- A stop is rejected by its checks, or undoes the start. -/
theorem pqosMonStop_cases (g : Nat) (s : σ) :
    (¬ b.Undoes g (.stop g) s ∧ ∃ e t, (b.pqosMonStop g).run s = .error e t
        ∧ (t = s ∨ (b.stopChecks g).run s = .error e t))
      ∨ b.Undoes g (.stop g) s ∧ ∃ t, (b.stopChecks g).run s = .ok () t
        ∧ (b.pqosMonStop g).run s = (b.stopUndo g).run t := by
  unfold pqosMonStop
  rw [get_bind, failIf_bind_run]
  split_ifs with hvalid
  · exact Or.inl ⟨fun h => hvalid h.2.1, _, _, rfl, Or.inl rfl⟩
  rw [failIf_bind_run]
  split_ifs with hinit
  · exact Or.inl ⟨fun h => by simp [h.2.2.1] at hinit, _, _, rfl, Or.inl rfl⟩
  rcases hc : (b.stopChecks g).run s with ⟨_, t⟩ | ⟨e, t⟩
  · exact Or.inr ⟨⟨rfl, not_not.1 hvalid, by simpa using hinit, t, hc⟩, t, rfl, bind_of_ok hc⟩
  · refine Or.inl ⟨fun h => ?_, e, t, bind_of_error hc, Or.inr rfl⟩
    obtain ⟨-, -, -, u, hu⟩ := h
    rw [hu] at hc
    cases hc

theorem pqosMonPoll_cases (groups : List Nat) (s : σ) :
    (∃ e, (b.pqosMonPoll groups).run s = .error e s)
      ∨ (∀ g ∈ groups, b.Valid g s) ∧ (b.pqosMonPoll groups).run s = (b.poll groups).run s := by
  unfold pqosMonPoll
  rw [get_bind, failIf_bind_run]
  split_ifs with hvalid
  · exact Or.inl ⟨_, rfl⟩
  rw [failIf_bind_run]
  split_ifs with hinit
  · exact Or.inl ⟨_, rfl⟩
  · exact Or.inr ⟨fun g hg => by_contra fun hn => hvalid (Or.inr ⟨g, hg, hn⟩), rfl⟩

variable (hb : b.Lawful)
include hb

theorem marked_valid {x : EStateM Err σ Unit} (hx : Keeps (b.Confined g) x)
    (hs : ¬ b.Valid g s) (g' : Nat) : b.Valid g' (final ((b.marked g x).run s))
      ↔ (g' = g ∧ ∃ t, (b.marked g x).run s = .ok () t) ∨ b.Valid g' s := by
  unfold marked
  have h := hx s
  rcases hr : x.run s with ⟨_, t⟩ | ⟨e, t⟩ <;> rw [hr] at h
  · rw [bind_of_ok hr]
    show b.Valid g' (b.setValid g groupValidMarker t) ↔ _
    by_cases hg : g' = g
    · subst hg
      simp only [Valid, hb.valid_set, if_true, true_and, true_iff]
      exact Or.inl ⟨_, rfl⟩
    · rw [Valid, hb.valid_set, if_neg hg]
      simp only [hg, false_and, false_or]
      exact h.valid_ne hg
  · rw [bind_of_error hr]
    simp only [final_error, reduceCtorEq, exists_false, and_false, false_or]
    by_cases hg : g' = g
    · subst hg
      exact iff_of_false (h.not_valid hs) hs
    · exact h.valid_ne hg

/-- What a start does to the marks, whichever it is and however it ends. -/
theorem start_valid (call : MonLibCall ε) (hcall : call.starts = some g) (s : σ) (g' : Nat) :
    b.Valid g' (final ((b.call call).run s))
      ↔ (g' = g ∧ ∃ t, (b.call call).run s = .ok () t) ∨ b.Valid g' s := by
  have hrejected (h : ∃ e, (b.call call).run s = .error e s) :
      b.Valid g' (final ((b.call call).run s))
        ↔ (g' = g ∧ ∃ t, (b.call call).run s = .ok () t) ∨ b.Valid g' s := by
    obtain ⟨e, he⟩ := h
    simp [he]
  cases call with
  | start env cores event g₀ =>
    obtain rfl : g₀ = g := Option.some.inj hcall
    rcases pqosMonStart_cases (b := b) env cores event g₀ s with he | ⟨hs, hrun⟩
    · exact hrejected he
    · show b.Valid g' (final ((b.pqosMonStart env cores event g₀).run s))
        ↔ (_ ∧ ∃ t, (b.pqosMonStart env cores event g₀).run s = .ok () t) ∨ _
      rw [hrun]
      exact marked_valid hb (hb.start env cores event g₀) hs g'
  | startPid env pid event g₀ =>
    obtain rfl : g₀ = g := Option.some.inj hcall
    rcases pqosMonStartPid_cases (b := b) env pid event g₀ s with he | ⟨hs, -, hrun⟩
    · exact hrejected he
    · have hpid := hb.setPid pid event g₀ s
      show b.Valid g' (final ((b.pqosMonStartPid env pid event g₀).run s))
        ↔ (_ ∧ ∃ t, (b.pqosMonStartPid env pid event g₀).run s = .ok () t) ∨ _
      rw [hrun, marked_valid hb (hb.startPid env g₀) (hpid.not_valid hs) g']
      by_cases hg : g' = g₀
      · subst hg
        exact or_congr_right (iff_of_false (hpid.not_valid hs) hs)
      · exact or_congr_right (hpid.valid_ne hg)
  | stop => cases hcall
  | poll => cases hcall

theorem stop_valid (g g' : Nat) (s : σ) : b.Valid g' (final ((b.pqosMonStop g).run s))
    ↔ b.Valid g' s ∧ ¬ b.Undoes g' (.stop g) s := by
  have hother (hg : g' ≠ g) : ¬ b.Undoes g' (.stop g) s :=
    fun h => hg (MonLibCall.stop.inj h.1).symm
  rcases pqosMonStop_cases (b := b) g s with ⟨hnot, e, t, hrun, ht⟩ | ⟨hundoes, t, hc, hrun⟩
  · have hkept : b.MarksKept s t := by
      rcases ht with rfl | hc
      · exact fun _ => rfl
      · exact (hb.stopChecks g).of_error hc
    rw [hrun, final_error, Valid, hkept g']
    refine (and_iff_left ?_).symm
    by_cases hg : g' = g
    · rwa [hg]
    · exact hother hg
  · rw [hrun]
    by_cases hg : g' = g
    · subst hg
      refine iff_of_false ?_ fun h => h.2 hundoes
      rw [Valid, hb.stopUndo_clears]
      decide
    · rw [(hb.stopUndo g t).valid_ne hg, Valid, (hb.stopChecks g).of_ok hc g']
      exact (and_iff_left (hother hg)).symm

theorem poll_valid (groups : List Nat) (s : σ) (g : Nat) :
    b.Valid g (final ((b.pqosMonPoll groups).run s)) ↔ b.Valid g s := by
  rcases pqosMonPoll_cases (b := b) groups s with ⟨e, he⟩ | ⟨-, hrun⟩
  · rw [he, final_error]
  · rw [hrun, Valid, hb.poll groups s g, Valid]

/-- One call sets a mark or clears it as a latch. -/
theorem call_valid (call : MonLibCall ε) (s : σ) (g : Nat) :
    b.Valid g (final ((b.call call).run s))
      ↔ b.Starts g call s ∨ b.Valid g s ∧ ¬ b.Undoes g call s := by
  cases hcall : call.starts with
  | some g₀ =>
    have hnot : ¬ b.Undoes g call s := by
      rintro ⟨rfl, -⟩
      cases hcall
    rw [start_valid hb call hcall, Starts, hcall, Option.some.injEq, and_iff_left hnot,
      eq_comm (a := g)]
  | none =>
    have hnot : ¬ b.Starts g call s := by
      rintro ⟨hg, -⟩
      rw [hcall] at hg
      cases hg
    rw [or_iff_right hnot]
    cases call with
    | start => cases hcall
    | startPid => cases hcall
    | stop g₀ => exact stop_valid hb g₀ g s
    | poll groups =>
      have hundoes : ¬ b.Undoes g (.poll groups) s := by
        rintro ⟨h, -⟩
        cases h
      rw [and_iff_left hundoes]
      exact poll_valid hb groups s g

/-! ## Runs -/

/-- Over any sequence of calls a group's mark is set by the starts of it that succeed, and cleared
by the stops of it that get past their checks. -/
theorem after_valid (calls : Nat → MonLibCall ε) {s : σ} (h0 : ¬ b.Valid g s) (n : Nat) :
    b.Valid g (b.after calls s n) ↔ ∃ j < n, b.Starts g (calls j) (b.after calls s j)
      ∧ ∀ k, j < k → k < n → ¬ b.Undoes g (calls k) (b.after calls s k) :=
  @Latch.set_iff (fun n => b.Valid g (b.after calls s n))
    (fun j => b.Starts g (calls j) (b.after calls s j))
    (fun k => b.Undoes g (calls k) (b.after calls s k)) n h0
    fun n => call_valid hb (calls n) (b.after calls s n) g

omit hb in
/-- A start of a group that is valid is rejected, and changes nothing. -/
theorem start_rejected (call : MonLibCall ε) (hcall : call.starts = some g) (hs : b.Valid g s) :
    ∃ e, (b.call call).run s = .error e s := by
  cases call with
  | start env cores event g₀ =>
    obtain rfl : g₀ = g := Option.some.inj hcall
    exact (pqosMonStart_cases env cores event g₀ s).resolve_right fun h => h.1 hs
  | startPid env pid event g₀ =>
    obtain rfl : g₀ = g := Option.some.inj hcall
    exact (pqosMonStartPid_cases env pid event g₀ s).resolve_right fun h => h.1 hs
  | stop => cases hcall
  | poll => cases hcall

omit hb in
theorem stop_rejected (hs : ¬ b.Valid g s) : ∃ e, (b.pqosMonStop g).run s = .error e s := by
  unfold pqosMonStop
  rw [get_bind, failIf_bind_run, if_pos (show b.valid g s ≠ groupValidMarker from hs)]
  exact ⟨_, rfl⟩

omit hb in
theorem poll_rejected {groups : List Nat} (hg : g ∈ groups) (hs : ¬ b.Valid g s) :
    ∃ e, (b.pqosMonPoll groups).run s = .error e s :=
  (pqosMonPoll_cases groups s).resolve_right fun h => hs (h.1 g hg)

/-- A stop that fails a check leaves what the checks leave, and every mark. -/
theorem stop_checked {R : σ → σ → Prop} (hR : Frame R) (hkeeps : Keeps R (b.stopChecks g))
    (hnot : ¬ b.Undoes g (.stop g) s) :
    ∃ e t, (b.pqosMonStop g).run s = .error e t ∧ R s t ∧ b.MarksKept s t := by
  rcases pqosMonStop_cases (b := b) g s with ⟨-, e, t, hrun, rfl | hc⟩ | ⟨h, -⟩
  · exact ⟨e, t, hrun, hR.refl t, fun _ => rfl⟩
  · exact ⟨e, t, hrun, hkeeps.of_error hc, (hb.stopChecks g).of_error hc⟩
  · exact absurd h hnot

/-- The life of the groups over a sequence of calls; `R` says what a stop that fails a check
leaves. -/
structure LifeCycle (b : MonBackend σ ε) (R : σ → σ → Prop) (calls : Nat → MonLibCall ε)
    (s : σ) : Prop where
  valid_iff : ∀ g n, b.Valid g (b.after calls s n) ↔ ∃ j < n,
    b.Starts g (calls j) (b.after calls s j)
      ∧ ∀ k, j < k → k < n → ¬ b.Undoes g (calls k) (b.after calls s k)
  start_rejected : ∀ g n call, call.starts = some g → b.Valid g (b.after calls s n) →
    ∃ e, (b.call call).run (b.after calls s n) = .error e (b.after calls s n)
  stop_rejected : ∀ g n, ¬ b.Valid g (b.after calls s n) →
    ∃ e, (b.call (.stop g)).run (b.after calls s n) = .error e (b.after calls s n)
  poll_rejected : ∀ g n groups, g ∈ groups → ¬ b.Valid g (b.after calls s n) →
    ∃ e, (b.call (.poll groups)).run (b.after calls s n) = .error e (b.after calls s n)
  stop_checked : ∀ g n, b.Valid g (b.after calls s n) →
    ¬ b.Undoes g (.stop g) (b.after calls s n) →
      ∃ e t, (b.call (.stop g)).run (b.after calls s n) = .error e t
        ∧ R (b.after calls s n) t ∧ b.Valid g t

theorem lifeCycle {R : σ → σ → Prop} (hR : Frame R) (hkeeps : ∀ g, Keeps R (b.stopChecks g))
    (calls : Nat → MonLibCall ε) (h0 : ∀ g, ¬ b.Valid g s) : b.LifeCycle R calls s where
  valid_iff g n := after_valid hb calls (h0 g) n
  start_rejected g n call hcall hvalid := start_rejected call hcall hvalid
  stop_rejected g n hvalid := stop_rejected hvalid
  poll_rejected g n groups hg hvalid := poll_rejected hg hvalid
  stop_checked g n hvalid hnot := by
    obtain ⟨e, t, hrun, hkept, hmarks⟩ := stop_checked hb hR (hkeeps g) hnot
    refine ⟨e, t, hrun, hkept, ?_⟩
    rw [Valid, hmarks g]
    exact hvalid

end MonBackend

end Pqos
