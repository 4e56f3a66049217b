import Mathlib.Algebra.Order.Archimedean.Basic
import Mathlib.Algebra.Order.Group.Basic
import Mathlib.Data.List.TakeWhile
import Mathlib.Tactic.Common

/-!
# Searching down a grid

A loop walks down from a value by a step as long as it is above a bound, and may be left before
that. A loop that is left at a test which, once true, stays true further down is the fold over the
values before it; and it comes to the same as the whole loop when what it leaves out does nothing.
A step that is not positive goes on for ever, so a loop has fuel.
-/

namespace Search

/-- What a round does to a loop: go on with it, or leave it. -/
inductive Step (σ : Type)
  | next (s : σ)
  | stop (s : σ)

def Step.state {σ : Type} : Step σ → σ
  | .next s => s
  | .stop s => s

section Loop

variable {K σ : Type} [AddCommGroup K] [LinearOrder K] (step y : K)

/-- Run `body` on the values from `x` down. -/
def forDown (body : K → σ → Option (Step σ)) : Nat → K → σ → Option σ
  | 0, _, _ => none
  | fuel + 1, x, s =>
    if y < x then
      match body x s with
      | none => none
      | some (.stop t) => some t
      | some (.next t) => forDown body fuel (x - step) t
    else some s

/-- The values from `x` down. -/
def down : Nat → K → Option (List K)
  | 0, _ => none
  | fuel + 1, x => if y < x then (down fuel (x - step)).map (x :: ·) else some []

variable {step y} {x : K} {l : List K} {fuel : Nat}

theorem down_succ :
    down step y (fuel + 1) x
      = if y < x then (down step y fuel (x - step)).map (x :: ·) else some [] := rfl

theorem down_cons {v : K} (h : down step y fuel x = some (v :: l)) :
    v = x ∧ y < x ∧ ∃ n, down step y n (x - step) = some l := by
  cases fuel with
  | zero => cases h
  | succ fuel =>
    rw [down_succ] at h
    split_ifs at h with hx
    · simp only [Option.map_eq_some_iff, List.cons.injEq] at h
      obtain ⟨l', hl', rfl, rfl⟩ := h
      exact ⟨rfl, hx, fuel, hl'⟩
    · cases h

/-- What every round keeps, the loop keeps. -/
theorem forDown_inv [IsOrderedAddMonoid K] {P : σ → Prop} {body : K → σ → Option (Step σ)}
    {s t : σ} (hstep : 0 ≤ step)
    (hbody : ∀ v, y < v → v ≤ x → ∀ s r, P s → body v s = some r → P r.state) (hs : P s)
    (h : forDown step y body fuel x s = some t) : P t := by
  induction fuel generalizing x s with
  | zero => cases h
  | succ fuel ih =>
    unfold forDown at h
    split_ifs at h with hx
    · have hround := hbody x hx le_rfl s
      rcases hb : body x s with _ | r <;> rw [hb] at h
      · cases h
      · cases r with
        | stop u =>
          cases h
          exact hround _ hs hb
        | next u =>
          refine ih (fun v hy hv => hbody v hy (hv.trans ?_)) (hround _ hs hb) h
          exact sub_le_self x hstep
    · cases h
      exact hs

theorem forDown_next (f : K → σ → Option σ) {s t : σ} :
    forDown step y (fun v s => (f v s).map .next) fuel x s = some t
      ↔ ∃ l, down step y fuel x = some l ∧ l.foldlM (fun s v => f v s) s = some t := by
  induction fuel generalizing x s with
  | zero => simp [forDown, down]
  | succ fuel ih =>
    unfold forDown down
    split_ifs with hx
    · rcases hf : f x s with _ | s'
      · simp [hf]
      · simp only [Option.map_some, ih, Option.map_eq_some_iff]
        constructor
        · rintro ⟨l, hl, ht⟩
          exact ⟨x :: l, ⟨l, hl, rfl⟩, by simpa [List.foldlM_cons, hf] using ht⟩
        · rintro ⟨_, ⟨l, hl, rfl⟩, ht⟩
          exact ⟨l, hl, by simpa [List.foldlM_cons, hf] using ht⟩
    · simp [List.foldlM_nil]

/-- A loop left at the first value that `leave` holds of. -/
theorem forDown_leave {leave : K → Prop} [DecidablePred leave] {f : K → σ → Option σ} {s : σ}
    (h : down step y fuel x = some l) :
    forDown step y (fun v s => if leave v then some (.stop s) else (f v s).map .next) fuel x s
      = (l.takeWhile fun v => ¬ leave v).foldlM (fun s v => f v s) s := by
  induction fuel generalizing x s l with
  | zero => cases h
  | succ fuel ih =>
    rw [down_succ] at h
    unfold forDown
    by_cases hx : y < x
    · rw [if_pos hx, Option.map_eq_some_iff] at h
      obtain ⟨l', hl', rfl⟩ := h
      rw [if_pos hx]
      by_cases hv : leave x
      · simp [hv, List.foldlM_nil]
      · rcases hf : f x s with _ | s'
        · simp [hv, hf, List.foldlM_cons]
        · simp [hv, hf, List.foldlM_cons, ih hl']
    · rw [if_neg hx] at h ⊢
      cases h
      simp [List.foldlM_nil]

variable [IsOrderedAddMonoid K]

/-- With a step that is not positive, a loop that has begun does not end. -/
theorem step_pos (h : down step y fuel x = some l) (hx : y < x) : 0 < step := by
  induction fuel generalizing x l with
  | zero => cases h
  | succ fuel ih =>
    rw [down_succ, if_pos hx, Option.map_eq_some_iff] at h
    obtain ⟨l', hl', -⟩ := h
    by_contra hstep
    have hle : x ≤ x - step := le_sub_self_iff x |>.2 (not_lt.1 hstep)
    exact hstep (ih hl' (hx.trans_le hle))

theorem down_le (h : down step y fuel x = some l) : ∀ v ∈ l, v ≤ x := by
  induction l generalizing fuel x with
  | nil => simp
  | cons w l ih =>
    obtain ⟨rfl, hx, n, hl⟩ := down_cons h
    have hstep := step_pos h hx
    intro v hv
    rcases List.mem_cons.1 hv with rfl | hv
    · exact le_rfl
    · exact (ih hl v hv).trans (sub_le_self w hstep.le)

theorem down_pairwise (h : down step y fuel x = some l) : l.Pairwise (· > ·) := by
  induction l generalizing fuel x with
  | nil => exact List.Pairwise.nil
  | cons w l ih =>
    obtain ⟨rfl, hx, n, hl⟩ := down_cons h
    have hstep := step_pos h hx
    exact List.Pairwise.cons (fun v hv => (down_le hl v hv).trans_lt (sub_lt_self w hstep)) (ih hl)

/-- With a positive step there is an amount of fuel from which on every loop ends. -/
theorem down_ends [Archimedean K] (hstep : 0 < step) (x : K) :
    ∃ N, ∀ fuel ≥ N, ∃ l, down step y fuel x = some l := by
  obtain ⟨k, hk⟩ := Archimedean.arch (x - y) hstep
  have key : ∀ (k : Nat) (x : K), x - y ≤ k • step → ∀ fuel ≥ k + 1,
      ∃ l, down step y fuel x = some l := by
    intro k
    induction k with
    | zero =>
      intro x hx fuel hfuel
      obtain ⟨n, rfl⟩ := Nat.exists_eq_add_of_le' hfuel
      have hle : x ≤ y := by simpa using hx
      exact ⟨[], by simp [down, not_lt.2 hle]⟩
    | succ k ih =>
      intro x hx fuel hfuel
      obtain ⟨n, rfl⟩ := Nat.exists_eq_add_of_le' hfuel
      have hx' : x - step - y ≤ k • step := by
        rw [succ_nsmul] at hx
        rw [sub_right_comm]
        exact sub_le_iff_le_add.2 hx
      obtain ⟨l, hl⟩ := ih (x - step) hx' (n + (k + 1)) (Nat.le_add_left _ _)
      rw [← Nat.add_assoc n, down_succ]
      split_ifs with hxy
      · exact ⟨x :: l, by rw [hl, Option.map_some]⟩
      · exact ⟨[], rfl⟩
  exact ⟨k + 1, key k x hk⟩

end Loop

/-! ## Leaving a loop early -/

section Leave

variable {K σ : Type}

theorem foldlM_idle {f : σ → K → Option σ} :
    ∀ {l : List K} {s t : σ}, (∀ v ∈ l, ∀ s t, f s v = some t → t = s) →
      l.foldlM f s = some t → t = s
  | [], s, t, _, h => by
    cases h
    rfl
  | a :: l, s, t, hf, h => by
    rw [List.foldlM_cons, Option.bind_eq_bind, Option.bind_eq_some_iff] at h
    obtain ⟨s', hs', h⟩ := h
    obtain rfl := hf a List.mem_cons_self s s' hs'
    exact foldlM_idle (fun v hv => hf v (List.mem_cons_of_mem a hv)) h

theorem foldlM_refines {f g : σ → K → Option σ} :
    ∀ {l : List K} {s t : σ}, (∀ v ∈ l, ∀ s t, f s v = some t → g s v = some t) →
      l.foldlM f s = some t → l.foldlM g s = some t
  | [], _, _, _, h => h
  | a :: l, s, t, hfg, h => by
    rw [List.foldlM_cons, Option.bind_eq_bind, Option.bind_eq_some_iff] at h
    obtain ⟨s', hs', h⟩ := h
    rw [List.foldlM_cons, Option.bind_eq_bind, hfg a List.mem_cons_self s s' hs']
    exact foldlM_refines (fun v hv => hfg v (List.mem_cons_of_mem a hv)) h

variable [LinearOrder K] {leave : K → Prop} [DecidablePred leave]

/-- Down a list, once `leave` holds it holds of the rest. -/
theorem leave_of_mem_dropWhile (hmono : ∀ v w, v ≤ w → leave w → leave v) {l : List K}
    (hl : l.Pairwise (· > ·)) : ∀ v ∈ l.dropWhile (fun v => ¬ leave v), leave v := by
  induction l with
  | nil => simp
  | cons a l ih =>
    obtain ⟨ha, hl⟩ := List.pairwise_cons.1 hl
    by_cases h : leave a
    · intro v hv
      rw [List.dropWhile_cons_of_neg (by simpa using h)] at hv
      rcases List.mem_cons.1 hv with rfl | hv
      · exact h
      · exact hmono v a (ha v hv).le h
    · rw [List.dropWhile_cons_of_pos (by simpa using h)]
      exact ih hl

/-- Rounds that do nothing may be left out, and the others run in a way that refines them. -/
theorem foldlM_takeWhile {f g : σ → K → Option σ} (hmono : ∀ v w, v ≤ w → leave w → leave v)
    {l : List K} (hl : l.Pairwise (· > ·)) {s t : σ}
    (hidle : ∀ v ∈ l, leave v → ∀ s t, f s v = some t → t = s)
    (hfg : ∀ v ∈ l, ¬ leave v → ∀ s t, f s v = some t → g s v = some t)
    (h : l.foldlM f s = some t) : (l.takeWhile fun v => ¬ leave v).foldlM g s = some t := by
  rw [← List.takeWhile_append_dropWhile (p := fun v => ¬ leave v) (l := l), List.foldlM_append,
    Option.bind_eq_bind, Option.bind_eq_some_iff] at h
  obtain ⟨u, hu, ht⟩ := h
  obtain rfl := foldlM_idle (fun v hv =>
    hidle v (List.dropWhile_subset _ hv) (leave_of_mem_dropWhile hmono hl v hv)) ht
  exact foldlM_refines (fun v hv =>
    hfg v (List.takeWhile_subset _ hv) (by simpa using List.mem_takeWhile_imp hv)) hu

variable [AddCommGroup K] [IsOrderedAddMonoid K] {step y x : K} {fuel : Nat} {s t : σ}

/-- A loop that ends may be left where `leave` begins to hold, if it does nothing from there on. -/
theorem forDown_prune (leave : K → Prop) [DecidablePred leave] (f g : K → σ → Option σ)
    (hmono : ∀ v w, v ≤ w → leave w → leave v)
    (hidle : ∀ v ≤ x, leave v → ∀ s t, f v s = some t → t = s)
    (hfg : ∀ v, ¬ leave v → ∀ s t, f v s = some t → g v s = some t)
    (h : forDown step y (fun v s => (f v s).map .next) fuel x s = some t) :
    forDown step y (fun v s => if leave v then some (.stop s) else (g v s).map .next) fuel x s
      = some t := by
  obtain ⟨l, hl, hrun⟩ := (forDown_next f).1 h
  rw [forDown_leave hl]
  exact foldlM_takeWhile hmono (down_pairwise hl) (fun v hv => hidle v (down_le hl v hv))
    (fun v _ => hfg v) hrun

omit [IsOrderedAddMonoid K] in
theorem forDown_refines {f g : K → σ → Option σ}
    (hfg : ∀ v s t, f v s = some t → g v s = some t)
    (h : forDown step y (fun v s => (f v s).map .next) fuel x s = some t) :
    forDown step y (fun v s => (g v s).map .next) fuel x s = some t := by
  obtain ⟨l, hl, hrun⟩ := (forDown_next f).1 h
  exact (forDown_next _).2 ⟨l, hl, foldlM_refines (fun v _ s t => hfg v s t) hrun⟩

omit [IsOrderedAddMonoid K] in
/-- A loop whose rounds are those of a function is the fold of the function over its values. -/
theorem forDown_foldl {f : K → σ → Option σ} {l : List K} {h : K → σ → σ}
    (hl : down step y fuel x = some l)
    (hf : ∀ v s, f v s = some (h v s)) :
    forDown step y (fun v s => (f v s).map .next) fuel x s
      = some (l.foldl (fun s v => h v s) s) := by
  refine (forDown_next _).2 ⟨l, hl, ?_⟩
  simp only [hf]
  exact List.foldlM_pure

end Leave

/-! ## The best so far -/

section Best

variable {C Q A : Type} [LinearOrder C]

/-- The best of what a search has seen, and its cost. -/
structure Best (C Q : Type) where
  cost : C
  best : Q

/-- A candidate takes the place of the best when it costs less. -/
def Best.offer (cost : C) (q : Q) (b : Best C Q) : Best C Q :=
  if cost < b.cost then ⟨cost, q⟩ else b

/-- What `l` makes of the best so far: the first of the cheapest in it, if that costs less. -/
def FirstCheapest (cost : A → C) (quota : A → Q) (l : List A) (b r : Best C Q) : Prop :=
  (r = b ∧ ∀ a ∈ l, b.cost ≤ cost a) ∨
    ∃ pre a post, l = pre ++ a :: post ∧ cost a < b.cost ∧ r = ⟨cost a, quota a⟩ ∧
      (∀ c ∈ pre, cost a < cost c) ∧ ∀ c ∈ post, cost a ≤ cost c

theorem firstCheapest_foldl {cost : A → C} {quota : A → Q} : ∀ (l : List A) (b : Best C Q),
    FirstCheapest cost quota l b (l.foldl (fun b a => b.offer (cost a) (quota a)) b)
  | [], b => Or.inl ⟨rfl, by simp⟩
  | a :: l, b => by
    rw [List.foldl_cons]
    unfold Best.offer
    split_ifs with hlt
    · rcases firstCheapest_foldl l ⟨cost a, quota a⟩ with ⟨hr, hle⟩ | h
      · exact Or.inr ⟨[], a, l, rfl, hlt, hr, by simp, hle⟩
      · obtain ⟨pre, c, post, rfl, hc, hr, hpre, hpost⟩ := h
        refine Or.inr ⟨a :: pre, c, post, rfl, hc.trans hlt, hr, ?_, hpost⟩
        intro d hd
        rcases List.mem_cons.1 hd with rfl | hd
        · exact hc
        · exact hpre d hd
    · rcases firstCheapest_foldl l b with ⟨hr, hle⟩ | h
      · refine Or.inl ⟨hr, ?_⟩
        intro d hd
        rcases List.mem_cons.1 hd with rfl | hd
        · exact not_lt.1 hlt
        · exact hle d hd
      · obtain ⟨pre, c, post, rfl, hc, hr, hpre, hpost⟩ := h
        refine Or.inr ⟨a :: pre, c, post, rfl, hc, hr, ?_, hpost⟩
        intro d hd
        rcases List.mem_cons.1 hd with rfl | hd
        · exact hc.trans_le (not_lt.1 hlt)
        · exact hpre d hd

end Best

end Search
