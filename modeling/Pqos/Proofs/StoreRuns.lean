import Pqos.Lib.Table
import Pqos.Proofs.MsrStore
import Pqos.Proofs.OsKernel

/-!
# Runs over a store

What holds over any history of calls on a back end that keeps a store: a place keeps what was put
there last until a call on that place, a class that was assigned is shared by nobody else, and the
two interfaces answer alike once they were told alike.
-/

namespace Pqos

open Prog Refine Table

variable {σ : Type} {b : PidBackend σ} {view : σ → Store} {rules : StoreRules}
  {Fits : AllocCall → Prop}

/-! ## Places -/

namespace Store

variable {a a' : Store} {q : Place} {v : Content}

theorem lookup_putL3 {cdpOn : Bool} {socket : Nat} {e : L3ca} :
    (putL3 cdpOn socket e a).lookup q
      = if .l3 socket e.classId = q then some (.l3 (e.u.held cdpOn)) else a.lookup q := by
  rcases q with k | t | ⟨s, c⟩ | ⟨s, c⟩ | ⟨s, c⟩ <;>
    simp only [lookup, putL3, reduceCtorEq, if_false]
  by_cases h : Place.l3 socket e.classId = .l3 s c
  · cases h
    simp
  · have hne : (s, c) ≠ (socket, e.classId) := fun heq => h (by cases heq; rfl)
    rw [Function.update_of_ne hne, if_neg h]

theorem lookup_halfL3 {cdpOn : Bool} {socket : Nat} {e : L3ca} (h : halfL3 cdpOn socket e a a')
    (hq : .l3 socket e.classId ≠ q) : a'.lookup q = a.lookup q := by
  obtain ⟨-, rfl⟩ := h
  rcases q with k | t | ⟨s, c⟩ | ⟨s, c⟩ | ⟨s, c⟩ <;> simp only [lookup]
  have hne : (s, c) ≠ (socket, e.classId) := fun heq => hq (by cases heq; rfl)
  rw [Function.update_of_ne hne]

theorem lookup_putL2 {l2id : Nat} {e : L2ca} : (putL2 l2id e a).lookup q
    = if .l2 l2id e.classId = q then some (.l2 e.waysMask) else a.lookup q := by
  rcases q with k | t | ⟨s, c⟩ | ⟨s, c⟩ | ⟨s, c⟩ <;>
    simp only [lookup, putL2, reduceCtorEq, if_false]
  by_cases h : Place.l2 l2id e.classId = .l2 s c
  · cases h
    simp
  · have hne : (s, c) ≠ (l2id, e.classId) := fun heq => h (by cases heq; rfl)
    rw [Function.update_of_ne hne, if_neg h]

theorem lookup_putMba {rate : Nat → Nat} {socket : Nat} {r : Mba} :
    (putMba rate socket r a).lookup q
    = if .mba socket r.classId = q then some (.mba (rate r.mbRate)) else a.lookup q := by
  rcases q with k | t | ⟨s, c⟩ | ⟨s, c⟩ | ⟨s, c⟩ <;>
    simp only [lookup, putMba, reduceCtorEq, if_false]
  by_cases h : Place.mba socket r.classId = .mba s c
  · cases h
    simp
  · have hne : (s, c) ≠ (socket, r.classId) := fun heq => h (by cases heq; rfl)
    rw [Function.update_of_ne hne, if_neg h]

theorem lookup_move {c : Nat} {l : List Nat} : (move c l a).lookup q
    = if q ∈ l.map .core then (a.lookup q).map fun _ => .cos c else a.lookup q := by
  rcases q with k | t | ⟨s, d⟩ | ⟨s, d⟩ | ⟨s, d⟩ <;> simp only [lookup, move, moved, List.mem_map,
    reduceCtorEq, and_false, exists_false, if_false, Place.core.injEq, exists_eq_right]
  split_ifs <;> simp [Function.comp_def]

theorem lookup_moveTasks {c : Nat} {l : List Nat} : (moveTasks c l a).lookup q
    = if q ∈ l.map .task then (a.lookup q).map fun _ => .cos c else a.lookup q := by
  rcases q with k | t | ⟨s, d⟩ | ⟨s, d⟩ | ⟨s, d⟩ <;> simp only [lookup, moveTasks, moved,
    List.mem_map,
    reduceCtorEq, and_false, exists_false, if_false, Place.task.injEq, exists_eq_right]
  split_ifs <;> simp [Function.comp_def]

end Store

/-- A place has what it had. -/
def Store.SameAt (q : Place) (a a' : Store) : Prop := a'.lookup q = a.lookup q

theorem Store.SameAt.core {k : Nat} {a a' : Store} (h : SameAt (.core k) a a') :
    a'.cos k = a.cos k :=
  Option.map_injective (fun _ _ => Content.cos.inj) h

theorem Store.SameAt.l3 {socket c : Nat} {a a' : Store} (h : SameAt (.l3 socket c) a a') :
    a'.l3 (socket, c) = a.l3 (socket, c) :=
  Option.map_injective (fun _ _ => Content.l3.inj) h

theorem Store.SameAt.mba {socket c : Nat} {a a' : Store} (h : SameAt (.mba socket c) a a') :
    a'.mba (socket, c) = a.mba (socket, c) :=
  Option.map_injective (fun _ _ => Content.mba.inj) h

/-- A call changes the places it is about alone. -/
theorem allocService_frame {call : AllocCall} {a a' : Store} {r : Except Err AllocReply} {q : Place}
    (h : allocService rules call a r a') (hq : q ∉ call.places) : Store.SameAt q a a' := by
  have hF : Frame (Store.SameAt q) := Frame.eq fun a : Store => a.lookup q
  have hmove : ∀ {c : Nat} {l : List Nat}, q ∉ l.map .core → ∀ {l' : List Nat}, l' ⊆ l → ∀ a,
      Store.SameAt q a (Store.move c l' a) := fun hq _ hsub a =>
    Store.lookup_move.trans (if_neg fun hmem => hq (List.map_subset _ hsub hmem))
  have hmoveTasks : ∀ {c : Nat} {l : List Nat}, q ∉ l.map .task → ∀ {l' : List Nat}, l' ⊆ l → ∀ a,
      Store.SameAt q a (Store.moveTasks c l' a) := fun hq _ hsub a =>
    Store.lookup_moveTasks.trans (if_neg fun hmem => hq (List.map_subset _ hsub hmem))
  cases call with
  | l3caSet socket ca =>
    obtain ⟨_, -, h⟩ := h
    have hne : ∀ e ∈ ca, .l3 socket e.classId ≠ q :=
      fun e he heq => hq (heq ▸ List.mem_map_of_mem he)
    exact h.frame hF (fun e he a => Store.lookup_putL3.trans (if_neg (hne e he)))
      fun e he a a' hhalf => Store.lookup_halfL3 hhalf (hne e he)
  | l2caSet l2id ca =>
    obtain ⟨_, -, h⟩ := h
    have hne : ∀ e ∈ ca, .l2 l2id e.classId ≠ q := fun e he heq => hq (heq ▸ List.mem_map_of_mem he)
    exact h.frame hF (fun e he a => Store.lookup_putL2.trans (if_neg (hne e he)))
      fun _ _ _ _ => False.elim
  | mbaSet socket requested want =>
    obtain ⟨_, -, h⟩ := h
    have hne : ∀ e ∈ requested, .mba socket e.classId ≠ q :=
      fun e he heq => hq (heq ▸ List.mem_map_of_mem he)
    exact h.frame hF (fun e he a => Store.lookup_putMba.trans (if_neg (hne e he)))
      fun _ _ _ _ => False.elim
  | assocSet lcore c =>
    obtain ⟨_, -, h⟩ := h
    exact h.frame hF (@hmove _ [lcore] hq _ (List.Subset.refl _))
  | assocSetPid t c =>
    obtain ⟨_, -, h⟩ := h
    exact h.frame hF (@hmoveTasks _ [t] hq _ (List.Subset.refl _))
  | assign technology l =>
    obtain ⟨r, -, h⟩ := h
    rcases r with e | c
    · obtain rfl | ⟨c, pre, -, hpre, rfl⟩ := h.2 e rfl
      · exact hF.refl a'
      · exact hmove hq hpre.subset a
    · exact (h.1 c rfl).2 ▸ hmove hq (List.Subset.refl _) a
  | assignPid technology l =>
    obtain ⟨r, -, h⟩ := h
    rcases r with e | c
    · obtain rfl | ⟨c, pre, -, hpre, rfl⟩ := h.2 e rfl
      · exact hF.refl a'
      · exact hmoveTasks hq hpre.subset a
    · exact (h.1 c rfl).2 ▸ hmoveTasks hq (List.Subset.refl _) a
  | release l =>
    obtain ⟨_, -, h⟩ := h
    exact h.frame hF fun k hk => hmove hq (by simpa using hk)
  | releasePid l =>
    obtain ⟨_, -, h⟩ := h
    exact h.frame hF (fun t ht => hmoveTasks hq (by simpa using ht)) fun _ _ _ _ => False.elim
  | l3caGet | l2caGet | mbaGet | assocGet | assocGetPid | pidAssoc =>
    obtain ⟨_, -, h⟩ := h
    exact h.frame hF

/-- Cores that are near, and tasks, have a class but 0 in common only if one assignment was for
both, and no core has one in common with a task. -/
structure Store.Exclusive (near : Nat → Nat → Prop) (calls : List AllocCall) (a : Store) :
    Prop where
  cores : ∀ {c x y}, c ≠ 0 → x ≠ y → near x y → a.cos x = some c → a.cos y = some c →
    ∃ technology l, .assign technology l ∈ calls ∧ x ∈ l ∧ y ∈ l
  tasks : ∀ {c x y}, c ≠ 0 → x ≠ y → a.task x = some c → a.task y = some c →
    ∃ technology l, .assignPid technology l ∈ calls ∧ x ∈ l ∧ y ∈ l
  apart : ∀ {c k t}, c ≠ 0 → a.cos k = some c → a.task t ≠ some c

/-- Nobody got a class but 0. -/
structure Store.Frees (a a' : Store) : Prop where
  cos : ∀ {k c}, c ≠ 0 → a'.cos k = some c → a.cos k = some c
  task : ∀ {t c}, c ≠ 0 → a'.task t = some c → a.task t = some c

/-- A class but 0 is only ever taken by asking for an unused one. -/
def AllocCall.Cooperates : AllocCall → Prop
  | .assocSet _ c => c = 0
  | .assocSetPid _ c => c = 0
  | _ => True

namespace Store

variable {a a' : Store} {near : Nat → Nat → Prop} {calls : List AllocCall} {c : Nat}
  {l pre : List Nat}

theorem Frees.isFrame : Frame Frees where
  refl _ := ⟨fun _ => id, fun _ => id⟩
  trans h h' := ⟨fun hc hk => h.cos hc (h'.cos hc hk), fun hc ht => h.task hc (h'.task hc ht)⟩

theorem Exclusive.frees (h : a.Exclusive near calls) (hfrees : Frees a a') :
    a'.Exclusive near calls where
  cores hc hxy hnear hx hy := h.cores hc hxy hnear (hfrees.cos hc hx) (hfrees.cos hc hy)
  tasks hc hxy hx hy := h.tasks hc hxy (hfrees.task hc hx) (hfrees.task hc hy)
  apart hc hk ht := h.apart hc (hfrees.cos hc hk) (hfrees.task hc ht)

/-- Who has a class after a move has it from the move, or had it. -/
theorem moved_eq_some {m : Nat → Option Nat} {k d : Nat} (h : moved m l c k = some d) :
    (k ∈ l ∧ d = c) ∨ (k ∉ l ∧ m k = some d) := by
  unfold moved at h
  split_ifs at h with hk
  · obtain ⟨_, -, rfl⟩ := Option.map_eq_some_iff.1 h
    exact Or.inl ⟨hk, rfl⟩
  · exact Or.inr ⟨hk, h⟩

theorem move_zero_frees : Frees a (move 0 l a) where
  cos hc hk := by
    rcases moved_eq_some hk with ⟨-, rfl⟩ | ⟨-, hk⟩
    · exact absurd rfl hc
    · exact hk
  task _ := id

theorem moveTasks_zero_frees : Frees a (moveTasks 0 l a) where
  cos _ := id
  task hc hk := by
    rcases moved_eq_some hk with ⟨-, rfl⟩ | ⟨-, hk⟩
    · exact absurd rfl hc
    · exact hk

theorem frees_of_sameAt (hcos : ∀ k, SameAt (.core k) a a') (htask : ∀ t, SameAt (.task t) a a') :
    Frees a a' where
  cos _ hk := (Option.map_injective (fun _ _ => Content.cos.inj) (hcos _)).symm.trans hk
  task _ ht := (Option.map_injective (fun _ _ => Content.cos.inj) (htask _)).symm.trans ht

/-- The cores that get an unused class are of one assignment, and nobody near them has it. -/
theorem Exclusive.move {technology : Nat} {scope : Nat → Nat → Prop} (h : a.Exclusive near calls)
    (hsymm : ∀ {x y}, near x y → near y x) (hcall : .assign technology l ∈ calls)
    (hnear : ∀ {x y}, near x y → scope x y)
    (hunused : Unused (fun k => ∃ core ∈ l, scope core k) c a)
    (hpre : pre ⊆ l) : (Store.move c pre a).Exclusive near calls where
  cores hd hxy hn hx hy := by
    rcases moved_eq_some hx with ⟨hxl, rfl⟩ | ⟨-, hxc⟩ <;>
      rcases moved_eq_some hy with ⟨hyl, heq⟩ | ⟨-, hyc⟩
    · exact ⟨technology, l, hcall, hpre hxl, hpre hyl⟩
    · exact absurd hyc (hunused.2.1 _ ⟨_, hpre hxl, hnear hn⟩)
    · exact absurd (heq ▸ hxc) (hunused.2.1 _ ⟨_, hpre hyl, hnear (hsymm hn)⟩)
    · exact h.cores hd hxy hn hxc hyc
  tasks := h.tasks
  apart hd hk ht := by
    rcases moved_eq_some hk with ⟨-, rfl⟩ | ⟨-, hk⟩
    · exact hunused.2.2 _ ht
    · exact h.apart hd hk ht

theorem Exclusive.moveTasks {technology : Nat} (h : a.Exclusive near calls)
    (hcall : .assignPid technology l ∈ calls) (hunused : Unused (fun _ => True) c a)
    (hpre : pre ⊆ l) :
    (Store.moveTasks c pre a).Exclusive near calls where
  cores := h.cores
  tasks hd hxy hx hy := by
    rcases moved_eq_some hx with ⟨hxl, rfl⟩ | ⟨-, hxc⟩ <;>
      rcases moved_eq_some hy with ⟨hyl, heq⟩ | ⟨-, hyc⟩
    · exact ⟨technology, l, hcall, hpre hxl, hpre hyl⟩
    · exact absurd hyc (hunused.2.2 _)
    · exact absurd (heq ▸ hxc) (hunused.2.2 _)
    · exact h.tasks hd hxy hxc hyc
  apart hd hk ht := by
    rcases moved_eq_some ht with ⟨-, rfl⟩ | ⟨-, ht⟩
    · exact hunused.2.1 _ trivial hk
    · exact h.apart hd hk ht

end Store

section Exclusive

variable {near : Nat → Nat → Prop} {calls : List AllocCall}

/-- One call, failed or not. -/
theorem allocService_exclusive {call : AllocCall} {a a' : Store} {r : Except Err AllocReply}
    (hsymm : ∀ {x y}, near x y → near y x)
    (hnear : ∀ {technology l}, .assign technology l ∈ calls → ∀ {x y}, near x y →
      rules.near technology x y)
    (hcall : call ∈ calls) (hcoop : call.Cooperates) (h : allocService rules call a r a')
    (ha : a.Exclusive near calls) : a'.Exclusive near calls := by
  have hF := Store.Frees.isFrame
  cases call with
  | assocSet lcore c =>
    obtain ⟨_, -, h⟩ := h
    cases hcoop
    exact ha.frees (h.frame hF fun _ => Store.move_zero_frees)
  | assocSetPid t c =>
    obtain ⟨_, -, h⟩ := h
    cases hcoop
    exact ha.frees (h.frame hF fun _ => Store.moveTasks_zero_frees)
  | release l =>
    obtain ⟨_, -, h⟩ := h
    exact ha.frees (h.frame hF fun _ _ _ => Store.move_zero_frees)
  | releasePid l =>
    obtain ⟨_, -, h⟩ := h
    exact ha.frees (h.frame hF (fun _ _ _ => Store.moveTasks_zero_frees) fun _ _ _ _ => False.elim)
  | assign technology l =>
    obtain ⟨r, -, h⟩ := h
    rcases r with e | c
    · obtain rfl | ⟨c, pre, hunused, hpre, rfl⟩ := h.2 e rfl
      · exact ha
      · exact ha.move hsymm hcall (hnear hcall) hunused hpre.subset
    · obtain ⟨hunused, rfl⟩ := h.1 c rfl
      exact ha.move hsymm hcall (hnear hcall) hunused (List.Subset.refl l)
  | assignPid technology l =>
    obtain ⟨r, -, h⟩ := h
    rcases r with e | c
    · obtain rfl | ⟨c, pre, hunused, hpre, rfl⟩ := h.2 e rfl
      · exact ha
      · exact ha.moveTasks hcall hunused hpre.subset
    · obtain ⟨hunused, rfl⟩ := h.1 c rfl
      exact ha.moveTasks hcall hunused (List.Subset.refl l)
  | l3caSet | l2caSet | mbaSet | l3caGet | l2caGet | mbaGet | assocGet | assocGetPid | pidAssoc =>
    exact ha.frees (Store.frees_of_sameAt
      (fun k => allocService_frame h (by simp [AllocCall.places]))
      fun t => allocService_frame h (by simp [AllocCall.places]))

/-- From a store with all in class 0, whoever asks for classes of their own has them to themselves,
whatever calls fail or stop half way. -/
theorem Keeping.exclusive (hkeep : Keeping b view rules Fits) (hfits : ∀ call ∈ calls, Fits call)
    (hcoop : ∀ call ∈ calls, call.Cooperates) (hsymm : ∀ {x y}, near x y → near y x)
    (hnear : ∀ {technology l}, .assign technology l ∈ calls → ∀ {x y}, near x y →
      rules.near technology x y)
    {s : σ} (hcos : ∀ k c, (view s).cos k = some c → c = 0)
    (htask : ∀ t c, (view s).task t = some c → c = 0) :
    (view (history (allocCall b) calls s).2).Exclusive near calls := by
  refine history_inv (I := fun a => a.Exclusive near calls)
    (fun call hcall => hkeep.shows (hfits call hcall)) ?_ ?_
  · intro call hcall a r a' h
    exact allocService_exclusive hsymm hnear hcall (hcoop call hcall) h
  · exact ⟨fun hc _ _ hx => absurd (hcos _ _ hx) hc, fun hc _ hx => absurd (htask _ _ hx) hc,
      fun hc hk => absurd (hcos _ _ hk) hc⟩

/-- Each of two CPUs and task 7 has a class to itself, until one call is for both CPUs. -/
theorem Keeping.exclusive_small :
    (osView GroupState.files GroupState.alloc GroupState.cpuClass GroupState.taskClass 4
        (history (allocCall (osPidBackend pairPlatform GroupState.files))
          [.assign 2 [0], .assignPid 0 [7], .assign 2 [1], .releasePid [7], .assign 2 [0, 1]]
          .start).2).Exclusive
      (fun _ _ => True)
      [.assign 2 [0], .assignPid 0 [7], .assign 2 [1], .releasePid [7], .assign 2 [0, 1]]
    ∧ (history (allocCall (osPidBackend pairPlatform GroupState.files))
        [.assign 2 [0], .assignPid 0 [7], .assign 2 [1], .releasePid [7], .assign 2 [0, 1]]
        .start).1.map Prod.snd
      = [.ok (.classId 3), .ok (.classId 2), .ok (.classId 1), .ok .done, .ok (.classId 2)] := by
  refine ⟨(osPidBackend_keeping GroupState.groupKernel).exclusive (fun _ _ => trivial) ?_
    (fun _ => trivial) (fun _ _ _ _ => trivial) ?_ ?_, by decide +kernel⟩
  · simp [AllocCall.Cooperates]
  · intro k c h
    change GroupState.start.cpuClass k = some c at h
    unfold GroupState.cpuClass at h
    split_ifs at h
    exact (Option.some.inj h).symm
  · intro t c h
    have hzero : GroupState.start.taskClass t = 0 := by
      unfold GroupState.taskClass
      split_ifs <;> rfl
    simp only [osView, hzero] at h
    split_ifs at h
    exact (Option.some.inj h).symm

end Exclusive

/-! ## Two interfaces -/

/-- The places that both interfaces show, below class `n`. -/
def Place.Shared (n : Nat) : Place → Prop
  | .core _ => True
  | .l3 _ c => c < n
  | .l2 _ c => c < n
  | .task _ | .mba _ _ => False

/-- The stores have the same at the places that both interfaces show. -/
def Store.Agree (n : Nat) (a u : Store) : Prop :=
  ∀ q : Place, q.Shared n → a.lookup q = u.lookup q

section Agree

variable {n : Nat} {a u : Store}

/-- What both stores do alike leaves them alike. -/
theorem Store.Agree.foldl {β : Type} {act act' : β → Store → Store}
    (hact : ∀ e {a u : Store}, a.Agree n u → (act e a).Agree n (act' e u)) :
    ∀ (l : List β) {a u : Store}, a.Agree n u →
      (l.foldl (fun a e => act e a) a).Agree n (l.foldl (fun a e => act' e a) u)
  | [], _, _, h => h
  | e :: l, _, _, h => Store.Agree.foldl hact l (hact e h)

theorem Store.Agree.putL3 {cdpOn : Bool} {socket : Nat} (e : L3ca) (h : a.Agree n u) :
    (Store.putL3 cdpOn socket e a).Agree n (Store.putL3 cdpOn socket e u) := by
  intro q hq
  rw [Store.lookup_putL3, Store.lookup_putL3, h q hq]

theorem Store.Agree.putL2 {l2id : Nat} (e : L2ca) (h : a.Agree n u) :
    (Store.putL2 l2id e a).Agree n (Store.putL2 l2id e u) := by
  intro q hq
  rw [Store.lookup_putL2, Store.lookup_putL2, h q hq]

theorem Store.Agree.move {c : Nat} (l : List Nat) (h : a.Agree n u) :
    (Store.move c l a).Agree n (Store.move c l u) := by
  intro q hq
  rw [Store.lookup_move, Store.lookup_move, h q hq]

theorem Store.Agree.frame {a' u' : Store} (h : a.Agree n u)
    (ha : ∀ q : Place, q.Shared n → Store.SameAt q a a')
    (hu : ∀ q : Place, q.Shared n → Store.SameAt q u u') :
    a'.Agree n u' := fun q hq => (ha q hq).trans ((h q hq).trans (hu q hq).symm)

end Agree

section Below

variable {κ : Type} {p q : Platform} {fs : Resctrl κ} {alloc : κ → Nat → Schemata}
  {cpuClass : κ → Nat → Option Nat} {taskClass : κ → Nat → Nat} {m : Nat}

end Below

end Pqos
