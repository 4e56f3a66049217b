import Pqos.AllocStore

/-!
# Back ends that keep a store

A back end keeps a store if each of its functions does what the call of it should. The library's
checks come before those functions and change nothing, so its calls do too, on the requests that the
back end can take.
-/

namespace Pqos

open Prog Refine

variable {σ : Type} {b : PidBackend σ} {view : σ → Store} {rules : StoreRules}
  {Fits : AllocCall → Prop}

/-- Each function of the back end does what its call should, on calls that `Fits` allows. -/
structure Keeping (b : PidBackend σ) (view : σ → Store) (rules : StoreRules)
    (Fits : AllocCall → Prop) : Prop where
  l3caSet : ∀ socket ca, Fits (.l3caSet socket ca) →
    Shows view (SetsAll (Store.putL3 rules.cdpOn socket) (Store.halfL3 rules.cdpOn socket) ca
      fun _ => True) (b.l3caSet socket ca)
  l3caGet : ∀ socket m, Shows view (Reads fun a (tab : List L3ca) =>
    ∀ k, tab[k]? = (a.l3 (socket, k)).map (L3ca.mk k)) (b.l3caGet socket m)
  l2caSet : ∀ l2id ca, Fits (.l2caSet l2id ca) →
    Shows view (SetsAll (Store.putL2 l2id) whole ca fun _ => True) (b.l2caSet l2id ca)
  l2caGet : ∀ l2id m, Shows view (Reads fun a (tab : List L2ca) =>
    ∀ k, tab[k]? = (a.l2 (l2id, k)).map (L2ca.mk k)) (b.l2caGet l2id m)
  mbaSet : ∀ socket requested want, Fits (.mbaSet socket requested want) →
    (∀ r ∈ requested, r.mbRate ≤ 100) →
    Shows view (SetsAll (Store.putMba rules.rate socket) whole requested fun actual => actual =
      if want then some (requested.map fun r => ⟨r.classId, rules.rate r.mbRate⟩) else none)
      (b.mbaSet socket requested want)
  mbaGet : ∀ socket m, Shows view (Reads fun a (tab : List Mba) =>
    ∀ k, tab[k]? = (a.mba (socket, k)).map (Mba.mk k)) (b.mbaGet socket m)
  assocSet : ∀ lcore classId, Fits (.assocSet lcore classId) →
    Shows view (Sets (Store.move classId [lcore])) (b.allocAssocSet lcore classId)
  assocGet : ∀ lcore, Shows view (Reads fun a c => a.cos lcore = some c) (b.allocAssocGet lcore)
  assign : ∀ technology l, Fits (.assign technology l) →
    Shows view
      (Assigns (Store.Unused fun k => ∃ core ∈ l, rules.near technology core k) Store.move l)
      (b.allocAssign technology l)
  release : ∀ l, Fits (.release l) →
    Shows view (SetsSome (fun core => Store.move 0 [core]) l) (b.allocRelease l)
  assocSetPid : ∀ task classId, Fits (.assocSetPid task classId) →
    Shows view (Sets (Store.moveTasks classId [task])) (b.allocAssocSetPid task classId)
  assocGetPid : ∀ task, Shows view (Reads fun a c => a.task task = some c) (b.allocAssocGetPid task)
  assignPid : ∀ technology l, Fits (.assignPid technology l) →
    Shows view (Assigns (Store.Unused fun _ => True) Store.moveTasks l)
      (b.allocAssignPid technology l)
  releasePid : ∀ l, Fits (.releasePid l) →
    Shows view (SetsAll (fun task => Store.moveTasks 0 [task]) whole l fun _ => True)
      (b.allocReleasePid l)
  pidAssoc : ∀ classId, Shows view (Reads fun a (l : List Nat) =>
    ∀ t, t ∈ l ↔ a.task t = some classId) (b.pidGetPidAssoc classId)

section Store

variable {a : Store} {c : Nat}

theorem Store.moved_nil (m : Nat → Option Nat) : Store.moved m [] c = m := by
  funext k
  simp [Store.moved]

@[simp] theorem Store.move_nil : Store.move c [] a = a := by simp [Store.move, Store.moved_nil]

@[simp] theorem Store.moveTasks_nil : Store.moveTasks c [] a = a := by
  simp [Store.moveTasks, Store.moved_nil]

theorem Store.moved_cons (m : Nat → Option Nat) (k : Nat) (l : List Nat) :
    Store.moved m (k :: l) c = Store.moved (Store.moved m [k] c) l c := by
  funext j
  simp only [Store.moved, List.mem_cons]
  by_cases hk : j = k <;> by_cases hl : j ∈ l <;> simp [hk, hl]
  all_goals (subst hk; cases m j <;> simp)

/-- Moving one after another is moving together. -/
theorem Store.foldl_move : ∀ (l : List Nat) (a : Store),
    l.foldl (fun a k => Store.move c [k] a) a = Store.move c l a
  | [], _ => Store.move_nil.symm
  | k :: l, a => by
    rw [List.foldl_cons, Store.foldl_move]
    simp only [Store.move, ← Store.moved_cons]

theorem Store.foldl_moveTasks : ∀ (l : List Nat) (a : Store),
    l.foldl (fun a k => Store.moveTasks c [k] a) a = Store.moveTasks c l a
  | [], _ => Store.moveTasks_nil.symm
  | k :: l, a => by
    rw [List.foldl_cons, Store.foldl_moveTasks]
    simp only [Store.moveTasks, ← Store.moved_cons]

/-- A loop that moves all it is given to an unused class assigns that class. -/
theorem Assigns.of_forM {unused : Nat → Store → Prop} {move : Nat → List Nat → Store → Store}
    {l : List Nat} {f : Nat → EStateM Err σ Unit} {s : σ} (hunused : unused c (view s))
    (hmove : ∀ l a, l.foldl (fun a k => move c [k] a) a = move c l a)
    (hf : Shows view (SetsAll (fun k => move c [k]) whole l fun _ => True) (l.forM f)) :
    Assigns unused move l (view s) (outcome ((do l.forM f; return c : EStateM Err σ Nat).run s))
      (view (final ((do l.forM f; return c : EStateM Err σ Nat).run s))) := by
  rcases hrun : (l.forM f).run s with ⟨⟨⟩, t⟩ | ⟨e, t⟩
  · obtain ⟨-, hview⟩ := (hf.of_ok hrun).1 ⟨⟩ rfl
    rw [bind_of_ok hrun]
    refine ⟨fun c' hc' => ?_, nofun⟩
    cases hc'
    exact ⟨hunused, hview.trans (hmove l _)⟩
  · obtain ⟨pre, hpre, hview | ⟨_, _, hwhole⟩⟩ := (hf.of_error hrun).2 e rfl
    · rw [bind_of_error hrun]
      exact ⟨nofun, fun _ _ => Or.inr ⟨c, pre, hunused, hpre, hview.trans (hmove pre _)⟩⟩
    · exact hwhole.elim

theorem Assigns.mayFail {unused : Nat → Store → Prop} {move : Nat → List Nat → Store → Store}
    {l : List Nat} : MayFail (Assigns unused move l) :=
  fun _ _ => ⟨nofun, fun _ _ => Or.inl rfl⟩

end Store

/-- The library's calls do what they should, where the functions behind them do. -/
theorem Keeping.shows (h : Keeping b view rules Fits) {call : AllocCall} (hfits : Fits call) :
    Shows view (allocService rules call) (allocCall b call) := by
  cases call with
  | l3caSet socket ca =>
    exact (shows_failIf_bind SetsAll.mayFail fun _ => shows_failIf_bind SetsAll.mayFail fun _ =>
      shows_failIf_bind SetsAll.mayFail fun _ => h.l3caSet socket ca hfits).map
  | l3caGet socket m =>
    exact (shows_failIf_bind Reads.mayFail fun _ => shows_failIf_bind Reads.mayFail fun _ =>
      h.l3caGet socket m).map
  | l2caSet l2id ca =>
    exact (shows_failIf_bind SetsAll.mayFail fun _ => shows_failIf_bind SetsAll.mayFail fun _ =>
      shows_failIf_bind SetsAll.mayFail fun _ => h.l2caSet l2id ca hfits).map
  | l2caGet l2id m =>
    exact (shows_failIf_bind Reads.mayFail fun _ => shows_failIf_bind Reads.mayFail fun _ =>
      h.l2caGet l2id m).map
  | mbaSet socket requested want =>
    refine (shows_failIf_bind SetsAll.mayFail fun _ =>
      shows_failIf_bind SetsAll.mayFail fun hrates => shows_failIf_bind SetsAll.mayFail fun _ =>
        h.mbaSet socket requested want hfits ?_).map
    exact fun r hr => Nat.not_lt.1 fun hlt => hrates ⟨r, hr, Or.inr hlt⟩
  | mbaGet socket m =>
    exact (shows_failIf_bind Reads.mayFail fun _ => shows_failIf_bind Reads.mayFail fun _ =>
      h.mbaGet socket m).map
  | assocSet lcore classId =>
    exact (shows_failIf_bind Sets.mayFail fun _ => h.assocSet lcore classId hfits).map
  | assocGet lcore => exact (shows_failIf_bind Reads.mayFail fun _ => h.assocGet lcore).map
  | assign technology l =>
    exact (shows_failIf_bind Assigns.mayFail fun _ => shows_failIf_bind Assigns.mayFail fun _ =>
      h.assign technology l hfits).map
  | release l =>
    exact (shows_failIf_bind SetsSome.mayFail fun _ => shows_failIf_bind SetsSome.mayFail fun _ =>
      h.release l hfits).map
  | assocSetPid task classId =>
    exact (shows_failIf_bind Sets.mayFail fun _ => shows_failIf_bind Sets.mayFail fun _ =>
      h.assocSetPid task classId hfits).map
  | assocGetPid task =>
    exact (shows_failIf_bind Reads.mayFail fun _ => shows_failIf_bind Reads.mayFail fun _ =>
      h.assocGetPid task).map
  | assignPid technology l =>
    exact (shows_failIf_bind Assigns.mayFail fun _ => shows_failIf_bind Assigns.mayFail fun _ =>
      shows_failIf_bind Assigns.mayFail fun _ => h.assignPid technology l hfits).map
  | releasePid l =>
    exact (shows_failIf_bind SetsAll.mayFail fun _ => shows_failIf_bind SetsAll.mayFail fun _ =>
      shows_failIf_bind SetsAll.mayFail fun _ => h.releasePid l hfits).map
  | pidAssoc classId =>
    exact (shows_failIf_bind Reads.mayFail fun _ => shows_failIf_bind Reads.mayFail fun _ =>
      h.pidAssoc classId).map

/-! ## Calls that answered -/

section Calls

variable (hkeep : Keeping b view rules Fits) {s t : σ}
include hkeep

end Calls

end Pqos
