import Mathlib.Data.List.Forall2
import Mathlib.Tactic.Common

/-!
# Programs that change a state and can fail

A program of `EStateM ε σ α` keeps the state it reached when it fails, as code does that returns
an error code half way through. A run is read backwards with `bind_ok` and `bind_error`; what
every run of a program leaves unchanged, whether it fails or not, is a relation it `Keeps`; and a
loop over a list is followed with `forM_ok` by an invariant on the part of the list done so far.
-/

namespace Prog

variable {ε ε' σ α β : Type}

/-- Return early with `e` when `c` holds. -/
def failIf (c : Prop) [Decidable c] (e : ε) : EStateM ε σ Unit :=
  if c then throw e else pure ()

def ofOption (e : ε) : Option α → EStateM ε σ α
  | some a => pure a
  | none => throw e

/-- Run `x` and hand its outcome to the caller, who decides what a failure means. -/
def attempt (x : EStateM ε σ α) : EStateM ε' σ (Except ε α) := fun s =>
  match x.run s with
  | .ok a t => .ok (.ok a) t
  | .error e t => .ok (.error e) t

/-- Run `f` on `a`, and say whether it or anything before it failed. -/
def tryStep (f : α → EStateM ε σ PUnit) (failed : Bool) (a : α) : EStateM ε σ Bool := do
  let r ← attempt (f a)
  return failed || !r.isOk

/-- Run `f` on every element, whether or not it failed on an earlier one, and fail with `e` if it
failed on any. -/
def tryAll (e : ε) (f : α → EStateM ε σ PUnit) (l : List α) : EStateM ε σ Unit := do
  let failed ← l.foldlM (tryStep f) false
  failIf (failed = true) e

def mapState {τ : Type} (h : τ → σ) : EStateM.Result ε τ α → EStateM.Result ε σ α
  | .ok a t => .ok a (h t)
  | .error e t => .error e (h t)

/-- Run `x` on the part of the state that `get` reads and `put` replaces. -/
def zoom {τ : Type} (get : σ → τ) (put : τ → σ → σ) (x : EStateM ε τ α) : EStateM ε σ α :=
  fun s => mapState (put · s) (x.run (get s))

/-- Run `x` and, if it fails, report `f` of its error. -/
def mapError (f : ε → ε') (x : EStateM ε σ α) : EStateM ε' σ α := fun s =>
  match x.run s with
  | .ok a t => .ok a t
  | .error e t => .error (f e) t

/-- The state a run ends in, failed or not. -/
def final : EStateM.Result ε σ α → σ
  | .ok _ t => t
  | .error _ t => t

/-- Run `x` and, if it fails, run `undo` before failing the same way, whatever becomes of `undo`. -/
def onError (x : EStateM ε σ α) (undo : EStateM ε σ β) : EStateM ε σ α := fun s =>
  match x.run s with
  | .ok a t => .ok a t
  | .error e t => .error e (final (undo.run t))

@[simp] theorem final_ok (a : α) (t : σ) : final (.ok a t : EStateM.Result ε σ α) = t := rfl
@[simp] theorem final_error (e : ε) (t : σ) :
    final (.error e t : EStateM.Result ε σ α) = t := rfl

/-- What a run returns, if it does not fail. -/
def value : EStateM.Result ε σ α → Option α
  | .ok a _ => some a
  | .error _ _ => none

/-- What a run fails with, if it fails. -/
def failure : EStateM.Result ε σ α → Option ε
  | .ok _ _ => none
  | .error e _ => some e

/-- What a run returns or fails with. -/
def outcome : EStateM.Result ε σ α → Except ε α
  | .ok a _ => .ok a
  | .error e _ => .error e

@[simp] theorem outcome_ok (a : α) (t : σ) :
    outcome (.ok a t : EStateM.Result ε σ α) = .ok a := rfl
@[simp] theorem outcome_error (e : ε) (t : σ) :
    outcome (.error e t : EStateM.Result ε σ α) = .error e := rfl

theorem eq_ok_of_outcome {r : EStateM.Result ε σ α} {a : α} (h : outcome r = .ok a) :
    r = .ok a (final r) := by
  rcases r with ⟨b, t⟩ | ⟨e, t⟩
  · rw [Except.ok.inj h, final_ok]
  · cases h

section Runs

variable {x : EStateM ε σ α} {f : α → EStateM ε σ β} {s t : σ}

theorem bind_ok {b : β} :
    (x >>= f).run s = .ok b t ↔ ∃ a u, x.run s = .ok a u ∧ (f a).run u = .ok b t := by
  rw [EStateM.run_bind]
  rcases x.run s with ⟨a, u⟩ | ⟨e, u⟩ <;> simp

theorem bind_error {e : ε} :
    (x >>= f).run s = .error e t
      ↔ x.run s = .error e t ∨ ∃ a u, x.run s = .ok a u ∧ (f a).run u = .error e t := by
  rw [EStateM.run_bind]
  rcases x.run s with ⟨a, u⟩ | ⟨e', u⟩ <;> simp

theorem bind_of_ok {a : α} {u : σ} (h : x.run s = .ok a u) :
    (x >>= f).run s = (f a).run u := by
  rw [EStateM.run_bind, h]

theorem bind_of_error {e : ε} {u : σ} (h : x.run s = .error e u) :
    (x >>= f).run s = .error e u := by
  rw [EStateM.run_bind, h]

theorem get_bind {f : σ → EStateM ε σ β} : (get >>= f).run s = (f s).run s := rfl

theorem set_bind {f : PUnit → EStateM ε σ β} : (set t >>= f).run s = (f ⟨⟩).run t := rfl

theorem map_ok {g : α → β} {b : β} :
    (g <$> x).run s = .ok b t ↔ ∃ a, x.run s = .ok a t ∧ g a = b := by
  rw [map_eq_pure_bind, bind_ok]
  simp only [EStateM.run_pure, EStateM.Result.ok.injEq]
  constructor
  · rintro ⟨a, u, h, rfl, rfl⟩
    exact ⟨a, h, rfl⟩
  · rintro ⟨a, h, rfl⟩
    exact ⟨a, t, h, rfl, rfl⟩

theorem value_eq_some {r : EStateM.Result ε σ α} {a : α} : value r = some a ↔ ∃ t, r = .ok a t := by
  rcases r with ⟨b, u⟩ | ⟨e, u⟩ <;> simp [value]

theorem failure_eq_some {r : EStateM.Result ε σ α} {e : ε} :
    failure r = some e ↔ r = .error e (final r) := by
  rcases r with ⟨b, u⟩ | ⟨e', u⟩ <;> simp [failure]

theorem except_bind_ok {r : Except ε α} {g : α → Except ε β} {b : β} :
    (r >>= g) = .ok b ↔ ∃ a, r = .ok a ∧ g a = .ok b := by
  cases r <;> simp [bind, Except.bind]

theorem option_mapM_isSome {f : α → Option β} :
    ∀ {l : List α}, (∀ a ∈ l, (f a).isSome) → (l.mapM f).isSome
  | [], _ => rfl
  | a :: l, h => by
    obtain ⟨b, hb⟩ := Option.isSome_iff_exists.1 (h a List.mem_cons_self)
    obtain ⟨bs, hbs⟩ := Option.isSome_iff_exists.1
      (option_mapM_isSome fun a' ha' => h a' (List.mem_cons_of_mem a ha'))
    rw [List.mapM_cons, hb, hbs]
    rfl

/-- A fold that succeeds relates its first state to its last as its steps do. -/
theorem except_foldlM_ok {R : β → β → Prop} (hrefl : ∀ b, R b b)
    (htrans : ∀ {a b c}, R a b → R b c → R a c) {g : β → α → Except ε β}
    (hg : ∀ b a c, g b a = .ok c → R b c) :
    ∀ {l : List α} {b c : β}, l.foldlM g b = .ok c → R b c
  | [], b, c, h => by
    cases h
    exact hrefl b
  | a :: l, b, c, h => by
    rw [List.foldlM_cons, except_bind_ok] at h
    obtain ⟨d, hd, h⟩ := h
    exact htrans (hg b a d hd) (except_foldlM_ok hrefl htrans hg h)

/-- A fold adds to what its invariant speaks of what its steps add, one after another, where all of
it together fits. -/
theorem except_foldlM_gathers {ν : Type} {g : β → α → Except ε β} {nm : α → List ν}
    (I : List ν → β → Prop) (Fit : List ν → Prop) (hfit : ∀ {ns more}, Fit (ns ++ more) → Fit ns) :
    ∀ {l : List α} {ns : List ν} {b c : β},
      (∀ a ∈ l, ∀ ns b c, I ns b → Fit (ns ++ nm a) → g b a = .ok c → I (ns ++ nm a) c) →
      I ns b → Fit (ns ++ l.flatMap nm) → l.foldlM g b = .ok c → I (ns ++ l.flatMap nm) c
  | [], ns, b, c, _, hI, _, h => by
    cases h
    rwa [List.flatMap_nil, List.append_nil]
  | a :: l, ns, b, c, hstep, hI, hall, h => by
    rw [List.foldlM_cons, except_bind_ok] at h
    obtain ⟨d, hd, h⟩ := h
    rw [List.flatMap_cons, ← List.append_assoc] at hall ⊢
    have hfirst := hstep a List.mem_cons_self ns b d hI (hfit hall) hd
    exact except_foldlM_gathers I Fit hfit
      (fun a' ha' => hstep a' (List.mem_cons_of_mem _ ha')) hfirst
      hall h

/-- A fold whose steps succeed, but for bad elements, gathers what they add or stops at a bad
one. -/
theorem except_foldlM_cases {ν : Type} {g : β → α → Except ε β} {nm : α → List ν} {e : ε}
    (I : List ν → β → Prop) (Fit : List ν → Prop) (Bad : α → Prop)
    (hfit : ∀ {ns more}, Fit (ns ++ more) → Fit ns) :
    ∀ {l : List α} {ns : List ν} {b : β},
      (∀ a ∈ l, ∀ ns b, I ns b → Fit (ns ++ nm a) →
        (∃ c, g b a = .ok c ∧ I (ns ++ nm a) c) ∨ g b a = .error e ∧ Bad a) →
      I ns b → Fit (ns ++ l.flatMap nm) →
      (∃ c, l.foldlM g b = .ok c ∧ I (ns ++ l.flatMap nm) c)
        ∨ l.foldlM g b = .error e ∧ ∃ a ∈ l, Bad a
  | [], ns, b, _, hI, _ => by
    refine Or.inl ⟨b, rfl, ?_⟩
    rwa [List.flatMap_nil, List.append_nil]
  | a :: l, ns, b, hstep, hI, hall => by
    rw [List.flatMap_cons, ← List.append_assoc] at hall ⊢
    rw [List.foldlM_cons]
    rcases hstep a List.mem_cons_self ns b hI (hfit hall) with ⟨c, hc, hnext⟩ | ⟨hexit, hbad⟩
    · rw [hc]
      refine (except_foldlM_cases I Fit Bad hfit
        (fun a' ha' => hstep a' (List.mem_cons_of_mem _ ha')) hnext hall).imp_right ?_
      rintro ⟨hexit, a', ha', hbad⟩
      exact ⟨hexit, a', List.mem_cons_of_mem _ ha', hbad⟩
    · rw [hexit]
      exact Or.inr ⟨rfl, a, List.mem_cons_self, hbad⟩

/-- A run in two parts ends where its first part fails, or where its second part ends. -/
theorem final_bind {P : σ → Prop} (herr : ∀ e u, x.run s = .error e u → P u)
    (hok : ∀ a u, x.run s = .ok a u → P (final ((f a).run u))) : P (final ((x >>= f).run s)) := by
  rw [EStateM.run_bind]
  rcases hx : x.run s with ⟨a, u⟩ | ⟨e, u⟩
  · exact hok a u hx
  · exact herr e u hx

theorem failIf_run (c : Prop) [Decidable c] (e : ε) :
    (failIf c e : EStateM ε σ Unit).run s = if c then .error e s else .ok () s := by
  unfold failIf
  split_ifs <;> rfl

theorem failIf_ok {c : Prop} [Decidable c] {e : ε} {u : Unit} :
    (failIf c e : EStateM ε σ Unit).run s = .ok u t ↔ ¬ c ∧ t = s := by
  rw [failIf_run]
  split_ifs with h <;> simp [h, eq_comm]

theorem failIf_error {c : Prop} [Decidable c] {e e' : ε} :
    (failIf c e : EStateM ε σ Unit).run s = .error e' t ↔ c ∧ e' = e ∧ t = s := by
  rw [failIf_run]
  split_ifs with h <;> simp [h, eq_comm]

theorem failIf_bind_run {c : Prop} [Decidable c] {e : ε} {g : Unit → EStateM ε σ β} :
    (failIf c e >>= g).run s = if c then .error e s else (g ()).run s := by
  rw [EStateM.run_bind, failIf_run]
  split_ifs <;> rfl

theorem final_failIf_bind {c : Prop} [Decidable c] {e : ε} {g : Unit → EStateM ε σ β} :
    final ((failIf c e >>= g).run s) = if c then s else final ((g ()).run s) := by
  rw [EStateM.run_bind, failIf_run]
  split_ifs <;> rfl

theorem ofExcept_run (r : Except ε α) :
    (ofExcept r : EStateM ε σ α).run s
      = match r with | .ok a => .ok a s | .error e => .error e s := by
  cases r <;> rfl

theorem ofExcept_ok {r : Except ε α} {a : α} :
    (ofExcept r : EStateM ε σ α).run s = .ok a t ↔ r = .ok a ∧ t = s := by
  rw [ofExcept_run]
  cases r <;> simp [eq_comm]

theorem ofExcept_error {r : Except ε α} {e : ε} :
    (ofExcept r : EStateM ε σ α).run s = .error e t ↔ r = .error e ∧ t = s := by
  rw [ofExcept_run]
  cases r <;> simp [eq_comm]

theorem ofOption_run (o : Option α) (e : ε) :
    (ofOption e o : EStateM ε σ α).run s
      = match o with | some a => .ok a s | none => .error e s := by
  cases o <;> rfl

theorem ofOption_ok {o : Option α} {e : ε} {a : α} :
    (ofOption e o : EStateM ε σ α).run s = .ok a t ↔ o = some a ∧ t = s := by
  rw [ofOption_run]
  cases o <;> simp [eq_comm]

theorem ofOption_error {o : Option α} {e e' : ε} :
    (ofOption e o : EStateM ε σ α).run s = .error e' t ↔ o = none ∧ e' = e ∧ t = s := by
  rw [ofOption_run]
  cases o <;> simp [eq_comm]

theorem attempt_run : (attempt x : EStateM ε' σ (Except ε α)).run s
    = match x.run s with | .ok a t => .ok (.ok a) t | .error e t => .ok (.error e) t := rfl

theorem attempt_ok {r : Except ε α} :
    (attempt x : EStateM ε' σ (Except ε α)).run s = .ok r t ↔
      (∃ a, r = .ok a ∧ x.run s = .ok a t) ∨ ∃ e, r = .error e ∧ x.run s = .error e t := by
  rw [attempt_run]
  rcases x.run s with ⟨a, u⟩ | ⟨e, u⟩ <;> cases r <;> simp [eq_comm]

theorem attempt_bind_of_ok {a : α} {f : Except ε α → EStateM ε' σ β} (h : x.run s = .ok a t) :
    (attempt x >>= f).run s = (f (.ok a)).run t :=
  bind_of_ok (attempt_ok.2 (Or.inl ⟨a, rfl, h⟩))

theorem attempt_bind_of_error {e : ε} {f : Except ε α → EStateM ε' σ β}
    (h : x.run s = .error e t) : (attempt x >>= f).run s = (f (.error e)).run t :=
  bind_of_ok (attempt_ok.2 (Or.inr ⟨e, rfl, h⟩))

theorem zoom_run {τ : Type} {get : τ → σ} {put : σ → τ → τ} {u : τ} :
    (zoom get put x).run u = mapState (put · u) (x.run (get u)) := rfl

theorem zoom_ok {τ : Type} {get : τ → σ} {put : σ → τ → τ} {a : α} {u v : τ} :
    (zoom get put x).run u = .ok a v ↔ ∃ t, x.run (get u) = .ok a t ∧ v = put t u := by
  rw [zoom_run]
  rcases x.run (get u) with ⟨b, t⟩ | ⟨e, t⟩ <;> simp [mapState, eq_comm]

theorem zoom_error {τ : Type} {get : τ → σ} {put : σ → τ → τ} {e : ε} {u v : τ} :
    (zoom get put x).run u = .error e v ↔ ∃ t, x.run (get u) = .error e t ∧ v = put t u := by
  rw [zoom_run]
  rcases x.run (get u) with ⟨b, t⟩ | ⟨e', t⟩ <;> simp [mapState, eq_comm]

theorem mapError_run {g : ε → ε'} : (mapError g x).run s
    = match x.run s with | .ok a t => .ok a t | .error e t => .error (g e) t := rfl

theorem mapError_ok {g : ε → ε'} {a : α} : (mapError g x).run s = .ok a t ↔ x.run s = .ok a t := by
  rw [mapError_run]
  rcases x.run s with ⟨b, u⟩ | ⟨e, u⟩ <;> simp

theorem mapError_error {g : ε → ε'} {e' : ε'} :
    (mapError g x).run s = .error e' t ↔ ∃ e, x.run s = .error e t ∧ e' = g e := by
  rw [mapError_run]
  rcases x.run s with ⟨b, u⟩ | ⟨e, u⟩ <;> simp [eq_comm, and_comm]

theorem onError_run {undo : EStateM ε σ β} : (onError x undo).run s
    = match x.run s with | .ok a t => .ok a t | .error e t => .error e (final (undo.run t)) := rfl

theorem onError_ok {undo : EStateM ε σ β} {a : α} :
    (onError x undo).run s = .ok a t ↔ x.run s = .ok a t := by
  rw [onError_run]
  rcases x.run s with ⟨b, u⟩ | ⟨e, u⟩ <;> simp

theorem onError_error {undo : EStateM ε σ β} {e : ε} :
    (onError x undo).run s = .error e t
      ↔ ∃ u, x.run s = .error e u ∧ t = final (undo.run u) := by
  rw [onError_run]
  rcases x.run s with ⟨b, u⟩ | ⟨e', u⟩
  · simp
  · simp only [EStateM.Result.error.injEq]
    constructor
    · rintro ⟨rfl, rfl⟩
      exact ⟨u, ⟨rfl, rfl⟩, rfl⟩
    · rintro ⟨v, ⟨rfl, rfl⟩, rfl⟩
      exact ⟨rfl, rfl⟩

theorem attempt_ne_error {e : ε'} :
    (attempt x : EStateM ε' σ (Except ε α)).run s ≠ .error e t := by
  rw [attempt_run]
  rcases x.run s with ⟨a, u⟩ | ⟨e, u⟩ <;> simp

end Runs

/-! ## What every run keeps -/

/-- Every run of `x`, failed or not, relates its first state to its last by `R`. -/
def Keeps (R : σ → σ → Prop) (x : EStateM ε σ α) : Prop :=
  ∀ s, R s (final (x.run s))

/-- A relation that holds across a sequence of steps when it holds across each. -/
structure Frame (R : σ → σ → Prop) : Prop where
  refl : ∀ s, R s s
  trans : ∀ {s t u}, R s t → R t u → R s u

theorem Frame.eq {γ : Type} (g : σ → γ) : Frame fun s t => g t = g s where
  refl _ := rfl
  trans h h' := h'.trans h

theorem Frame.and {R S : σ → σ → Prop} (hR : Frame R) (hS : Frame S) :
    Frame fun s t => R s t ∧ S s t where
  refl s := ⟨hR.refl s, hS.refl s⟩
  trans h h' := ⟨hR.trans h.1 h'.1, hS.trans h.2 h'.2⟩

theorem Frame.all {ι : Sort*} {R : ι → σ → σ → Prop} (hR : ∀ i, Frame (R i)) :
    Frame fun s t => ∀ i, R i s t where
  refl s i := (hR i).refl s
  trans h h' i := (hR i).trans (h i) (h' i)

/-- A value stays, or becomes one of those allowed. -/
theorem Frame.eqOr {γ : Type} (g : σ → γ) (P : γ → Prop) :
    Frame fun s t => g t = g s ∨ P (g t) where
  refl _ := Or.inl rfl
  trans h h' := by
    rcases h' with h₂ | h₂
    · rwa [h₂]
    · exact Or.inr h₂

/-- A list grows at its head, by what is allowed. -/
theorem Frame.grows {β : Type} (f : σ → List β) {P : List β → Prop} (hnil : P [])
    (happend : ∀ {l l'}, P l → P l' → P (l ++ l')) :
    Frame fun s t => ∃ l, f t = l ++ f s ∧ P l where
  refl _ := ⟨[], rfl, hnil⟩
  trans := by
    rintro s t u ⟨l, hl, hP⟩ ⟨l', hl', hP'⟩
    exact ⟨l' ++ l, by rw [hl', hl, List.append_assoc], happend hP' hP⟩

section Keeps

variable {R : σ → σ → Prop} (hR : Frame R)
include hR

theorem Keeps.pure (a : α) : Keeps R (pure a : EStateM ε σ α) := fun s => hR.refl s

theorem Keeps.throw (e : ε) : Keeps R (throw e : EStateM ε σ α) := fun s => hR.refl s

theorem Keeps.failIf (c : Prop) [Decidable c] (e : ε) :
    Keeps R (failIf c e : EStateM ε σ Unit) := by
  intro s
  rw [failIf_run]
  split_ifs <;> exact hR.refl s

theorem Keeps.ofExcept (r : Except ε α) : Keeps R (ofExcept r : EStateM ε σ α) := by
  intro s
  rw [ofExcept_run]
  cases r <;> exact hR.refl s

theorem Keeps.ofOption (e : ε) (o : Option α) : Keeps R (ofOption e o : EStateM ε σ α) := by
  intro s
  rw [ofOption_run]
  cases o <;> exact hR.refl s

theorem Keeps.bind {x : EStateM ε σ α} {f : α → EStateM ε σ β} (hx : Keeps R x)
    (hf : ∀ a, Keeps R (f a)) : Keeps R (x >>= f) := by
  intro s
  have h := hx s
  rw [EStateM.run_bind]
  rcases hr : x.run s with ⟨a, u⟩ | ⟨e, u⟩ <;> rw [hr] at h
  · exact hR.trans h (hf a u)
  · exact h

/-- What the second program keeps holds from where the first one ended. -/
theorem keeps_after_bind {x : EStateM ε σ α} {f : α → EStateM ε σ β} (hf : ∀ a, Keeps R (f a))
    (s : σ) : R (final (x.run s)) (final ((x >>= f).run s)) := by
  rw [EStateM.run_bind]
  rcases x.run s with ⟨a, u⟩ | ⟨e, u⟩
  · exact hf a u
  · exact hR.refl u

/-- Past a check, the rest of the program may rely on the check. -/
theorem keeps_failIf_bind {c : Prop} [Decidable c] {e : ε} {f : Unit → EStateM ε σ β}
    (hf : ¬ c → Keeps R (f ())) : Keeps R (failIf c e >>= f) := by
  intro s
  by_cases hc : c
  · rw [bind_of_error (failIf_error.2 ⟨hc, rfl, rfl⟩)]
    exact hR.refl s
  · rw [bind_of_ok (a := ()) (failIf_ok.2 ⟨hc, rfl⟩)]
    exact hf hc s

theorem keeps_ofExcept_bind {r : Except ε α} {f : α → EStateM ε σ β}
    (hf : ∀ a, r = .ok a → Keeps R (f a)) : Keeps R (ofExcept r >>= f) := by
  intro s
  cases r with
  | error e => exact hR.refl s
  | ok a => exact hf a rfl s

theorem Keeps.map {x : EStateM ε σ α} {g : α → β} (hx : Keeps R x) : Keeps R (g <$> x) := by
  rw [map_eq_pure_bind]
  exact Keeps.bind hR hx fun a => Keeps.pure hR (g a)

theorem Keeps.unless (c : Prop) [Decidable c] {x : EStateM ε σ PUnit} (hx : Keeps R x) :
    Keeps R (unless c do x) := by
  split_ifs
  · exact Keeps.pure hR _
  · exact hx

theorem Keeps.forM {f : α → EStateM ε σ PUnit} :
    ∀ {l : List α}, (∀ a ∈ l, Keeps R (f a)) → Keeps R (l.forM f)
  | [], _ => Keeps.pure hR _
  | a :: l, h => by
    rw [List.forM_eq_forM, List.forM_cons]
    exact Keeps.bind hR (h a List.mem_cons_self) fun _ =>
      Keeps.forM fun b hb => h b (List.mem_cons_of_mem a hb)

/-- A loop that fails at the first element off `q` runs the elements before it only. -/
theorem keeps_forM_takeWhile {f : α → EStateM ε σ PUnit} {q : α → Bool}
    (hthrow : ∀ a, q a = false → ∃ e, f a = throw e) :
    ∀ {l : List α}, (∀ a ∈ l.takeWhile q, Keeps R (f a)) → Keeps R (l.forM f)
  | [], _ => Keeps.pure hR _
  | a :: l, h => by
    rw [List.forM_eq_forM, List.forM_cons]
    rcases ha : q a with _ | _
    · obtain ⟨e, he⟩ := hthrow a ha
      rw [he]
      exact Keeps.throw hR e
    · rw [List.takeWhile_cons_of_pos ha] at h
      exact Keeps.bind hR (h a List.mem_cons_self) fun _ =>
        keeps_forM_takeWhile hthrow fun b hb => h b (List.mem_cons_of_mem a hb)

theorem Keeps.foldlM {f : β → α → EStateM ε σ β} :
    ∀ {l : List α} {b : β}, (∀ b, ∀ a ∈ l, Keeps R (f b a)) → Keeps R (l.foldlM f b)
  | [], b, _ => Keeps.pure hR b
  | a :: l, b, h => by
    rw [List.foldlM_cons]
    exact Keeps.bind hR (h b a List.mem_cons_self) fun _ =>
      Keeps.foldlM fun b a ha => h b a (List.mem_cons_of_mem _ ha)

theorem Keeps.mapM {f : α → EStateM ε σ β} :
    ∀ {l : List α}, (∀ a ∈ l, Keeps R (f a)) → Keeps R (l.mapM f)
  | [], _ => by
    rw [List.mapM_nil]
    exact Keeps.pure hR _
  | a :: l, h => by
    rw [List.mapM_cons]
    exact Keeps.bind hR (h a List.mem_cons_self) fun _ =>
      Keeps.bind hR (Keeps.mapM fun b hb => h b (List.mem_cons_of_mem a hb)) fun _ =>
        Keeps.pure hR _

omit hR in
theorem Keeps.attempt {x : EStateM ε σ α} (hx : Keeps R x) :
    Keeps R (attempt x : EStateM ε' σ (Except ε α)) := by
  intro s
  have h := hx s
  rw [attempt_run]
  rcases hr : x.run s with ⟨a, u⟩ | ⟨e, u⟩ <;> rw [hr] at h <;> exact h

omit hR in
theorem Keeps.mapError {x : EStateM ε σ α} (hx : Keeps R x) (g : ε → ε') :
    Keeps R (mapError g x) := by
  intro s
  have h := hx s
  rw [mapError_run]
  rcases hr : x.run s with ⟨a, u⟩ | ⟨e, u⟩ <;> rw [hr] at h <;> exact h

theorem Keeps.onError {x : EStateM ε σ α} {undo : EStateM ε σ β} (hx : Keeps R x)
    (hundo : Keeps R undo) : Keeps R (onError x undo) := by
  intro s
  have h := hx s
  rw [onError_run]
  rcases hr : x.run s with ⟨a, u⟩ | ⟨e, u⟩ <;> rw [hr] at h
  · exact h
  · exact hR.trans h (hundo u)

omit hR in
/-- What a program on a part of the state keeps, seen from the whole. -/
theorem Keeps.zoom {τ : Type} {get : τ → σ} {put : σ → τ → τ} {R' : τ → τ → Prop}
    {x : EStateM ε σ α} (hx : Keeps R x) (h : ∀ u t, R (get u) t → R' u (put t u)) :
    Keeps R' (zoom get put x) := by
  intro u
  have hr := hx (get u)
  rw [zoom_run]
  rcases hx' : x.run (get u) with ⟨a, t⟩ | ⟨e, t⟩ <;> rw [hx'] at hr <;> exact h u t hr

omit hR in
theorem Keeps.of_ok {x : EStateM ε σ α} {s t : σ} {a : α} (hx : Keeps R x)
    (h : x.run s = .ok a t) : R s t := by
  simpa [h] using hx s

omit hR in
theorem Keeps.of_error {x : EStateM ε σ α} {s t : σ} {e : ε} (hx : Keeps R x)
    (h : x.run s = .error e t) : R s t := by
  simpa [h] using hx s

omit hR in
theorem Keeps.mono {R' : σ → σ → Prop} {x : EStateM ε σ α} (hx : Keeps R x)
    (h : ∀ {s t}, R s t → R' s t) : Keeps R' x := fun s => h (hx s)

end Keeps

/-! ## Programs that do not fail -/

/-- `x` succeeds from every state. -/
def Total (x : EStateM ε σ α) : Prop := ∀ s, ∃ a t, x.run s = .ok a t

section Total

theorem Total.pure (a : α) : Total (pure a : EStateM ε σ α) := fun s => ⟨a, s, rfl⟩

theorem Total.bind {x : EStateM ε σ α} {f : α → EStateM ε σ β} (hx : Total x)
    (hf : ∀ a, Total (f a)) : Total (x >>= f) := by
  intro s
  obtain ⟨a, t, ha⟩ := hx s
  obtain ⟨b, u, hb⟩ := hf a t
  exact ⟨b, u, by rw [bind_of_ok ha, hb]⟩

theorem Total.forM {f : α → EStateM ε σ PUnit} :
    ∀ {l : List α}, (∀ a ∈ l, Total (f a)) → Total (l.forM f)
  | [], _ => Total.pure _
  | a :: l, h => by
    rw [List.forM_eq_forM, List.forM_cons]
    exact Total.bind (h a List.mem_cons_self) fun _ =>
      Total.forM fun b hb => h b (List.mem_cons_of_mem a hb)

theorem Total.mapM {f : α → EStateM ε σ β} :
    ∀ {l : List α}, (∀ a ∈ l, Total (f a)) → Total (l.mapM f)
  | [], _ => by
    rw [List.mapM_nil]
    exact Total.pure _
  | a :: l, h => by
    rw [List.mapM_cons]
    exact Total.bind (h a List.mem_cons_self) fun _ =>
      Total.bind (Total.mapM fun b hb => h b (List.mem_cons_of_mem a hb)) fun _ => Total.pure _

theorem Total.map {x : EStateM ε σ α} {g : α → β} (hx : Total x) : Total (g <$> x) := by
  rw [map_eq_pure_bind]
  exact Total.bind hx fun a => Total.pure (g a)

theorem Total.not_error {x : EStateM ε σ α} (hx : Total x) {s t : σ} {e : ε} :
    x.run s ≠ .error e t := by
  obtain ⟨a, u, h⟩ := hx s
  simp [h]

end Total

/-! ## Programs that fail without a trace -/

/-- A failing run of `x` leaves the state as it was. -/
def Atomic (x : EStateM ε σ α) : Prop := ∀ s e t, x.run s = .error e t → t = s

section Atomic

theorem Total.atomic {x : EStateM ε σ α} (hx : Total x) : Atomic x :=
  fun _ _ _ h => absurd h hx.not_error

theorem atomic_failIf_bind {c : Prop} [Decidable c] {e : ε} {f : Unit → EStateM ε σ β}
    (hf : ¬ c → Atomic (f ())) : Atomic (failIf c e >>= f) := by
  intro s e' t h
  rcases bind_error.1 h with hc | ⟨_, u, hc, hrun⟩
  · exact (failIf_error.1 hc).2.2
  · obtain ⟨hn, rfl⟩ := failIf_ok.1 hc
    exact hf hn _ _ _ hrun

theorem atomic_ofExcept_bind {r : Except ε α} {f : α → EStateM ε σ β}
    (hf : ∀ a, r = .ok a → Atomic (f a)) : Atomic (ofExcept r >>= f) := by
  intro s e t h
  rcases bind_error.1 h with hr | ⟨a, u, hr, hrun⟩
  · exact (ofExcept_error.1 hr).2
  · obtain ⟨ha, rfl⟩ := ofExcept_ok.1 hr
    exact hf a ha _ _ _ hrun

end Atomic

/-! ## Programs behind checks -/

/-- `x` runs as `y`, or a check in front of it fails and leaves the state as it was. -/
def Guards (x y : EStateM ε σ α) : Prop :=
  ∀ s, (∃ e, x.run s = .error e s) ∨ x.run s = y.run s

section Guards

variable {y : EStateM ε σ β}

theorem Guards.refl (y : EStateM ε σ β) : Guards y y := fun _ => Or.inr rfl

theorem guards_failIf_bind {c : Prop} [Decidable c] {e : ε} {f : Unit → EStateM ε σ β}
    (hf : ¬ c → Guards (f ()) y) : Guards (failIf c e >>= f) y := by
  intro s
  by_cases hc : c
  · exact Or.inl ⟨e, bind_of_error (failIf_error.2 ⟨hc, rfl, rfl⟩)⟩
  · rw [bind_of_ok (failIf_ok (u := ()).2 ⟨hc, rfl⟩)]
    exact hf hc s

end Guards

/-! ## Programs on a part of the state -/

/-- `x` runs as `y` does on what `π` shows of the state. -/
def Mirrors {τ : Type} (π : σ → τ) (x : EStateM ε σ α) (y : EStateM ε τ α) : Prop :=
  ∀ s, mapState π (x.run s) = y.run (π s)

section Mirrors

variable {τ : Type} {π : σ → τ}

theorem Mirrors.bind {x : EStateM ε σ α} {y : EStateM ε τ α} {f : α → EStateM ε σ β}
    {g : α → EStateM ε τ β} (hx : Mirrors π x y) (hf : ∀ a, Mirrors π (f a) (g a)) :
    Mirrors π (x >>= f) (y >>= g) := by
  intro s
  have h := hx s
  rw [EStateM.run_bind, EStateM.run_bind, ← h]
  rcases x.run s with ⟨a, t⟩ | ⟨e, t⟩
  · exact hf a t
  · rfl

theorem Mirrors.throw (e : ε) : Mirrors π (throw e : EStateM ε σ α) (throw e) := fun _ => rfl

theorem Mirrors.failIf (c : Prop) [Decidable c] (e : ε) :
    Mirrors π (failIf c e : EStateM ε σ Unit) (failIf c e) := by
  intro s
  rw [failIf_run, failIf_run]
  split_ifs <;> rfl

theorem Mirrors.modify {f : σ → σ} {g : τ → τ} (h : ∀ s, π (f s) = g (π s)) :
    Mirrors π (modify f : EStateM ε σ PUnit) (modify g) :=
  fun s => congrArg (EStateM.Result.ok PUnit.unit) (h s)

theorem Mirrors.zoom {υ : Type} (π : σ → τ) {get : σ → υ} {get' : τ → υ} {put : υ → σ → σ}
    {put' : υ → τ → τ} (hget : ∀ s, get s = get' (π s)) (hput : ∀ u s, π (put u s) = put' u (π s))
    (x : EStateM ε υ α) : Mirrors π (zoom get put x) (zoom get' put' x) := by
  intro s
  rw [zoom_run, zoom_run, hget]
  rcases x.run (get' (π s)) with ⟨a, u⟩ | ⟨e, u⟩
  · exact congrArg (EStateM.Result.ok a) (hput u s)
  · exact congrArg (EStateM.Result.error e) (hput u s)

/-- A program that reads the state first. -/
theorem Mirrors.get_bind {f : σ → EStateM ε σ α} {g : τ → EStateM ε τ α}
    (h : ∀ s, Mirrors π (f s) (g (π s))) : Mirrors π (get >>= f) (get >>= g) :=
  fun s => h s s

end Mirrors

/-! ## Loops -/

section Loops

variable {f : α → EStateM ε σ PUnit}

/-- A loop that succeeds establishes any invariant each of its steps carries one element on. -/
theorem forM_ok {l : List α} {s t : σ} {u : PUnit} (I : List α → σ → Prop)
    (hrun : (l.forM f).run s = .ok u t) (h0 : I [] s)
    (hstep : ∀ pre a post t t', l = pre ++ a :: post → I pre t → (f a).run t = .ok ⟨⟩ t' →
      I (pre ++ [a]) t') : I l t := by
  have key : ∀ (post pre : List α) (s : σ), l = pre ++ post → I pre s →
      (post.forM f).run s = .ok u t → I l t := by
    intro post
    induction post with
    | nil =>
      intro pre s hl hI hr
      rw [List.forM_eq_forM, List.forM_nil, EStateM.run_pure] at hr
      cases hr
      simpa [hl] using hI
    | cons a post ih =>
      intro pre s hl hI hr
      rw [List.forM_eq_forM, List.forM_cons, bind_ok] at hr
      obtain ⟨_, t', ha, hr⟩ := hr
      exact ih (pre ++ [a]) t' (by simp [hl]) (hstep pre a post s t' hl hI ha) hr
  exact key l [] s rfl h0 hrun

/-- The same for a loop that collects what its steps return. -/
theorem mapM_ok {g : α → EStateM ε σ β} {l : List α} {s t : σ} {bs : List β}
    (I : List α → σ → Prop) (hrun : (l.mapM g).run s = .ok bs t) (h0 : I [] s)
    (hstep : ∀ pre a post b t t', l = pre ++ a :: post → I pre t → (g a).run t = .ok b t' →
      I (pre ++ [a]) t') : I l t := by
  have key : ∀ (post pre : List α) (s : σ) (bs : List β), l = pre ++ post → I pre s →
      (post.mapM g).run s = .ok bs t → I l t := by
    intro post
    induction post with
    | nil =>
      intro pre s bs hl hI hr
      rw [List.mapM_nil, EStateM.run_pure] at hr
      cases hr
      simpa [hl] using hI
    | cons a post ih =>
      intro pre s bs hl hI hr
      rw [List.mapM_cons, bind_ok] at hr
      obtain ⟨b, t', ha, hr⟩ := hr
      rw [bind_ok] at hr
      obtain ⟨bs', u, hr, hu⟩ := hr
      cases hu
      exact ih (pre ++ [a]) t' bs' (by simp [hl]) (hstep pre a post b s t' hl hI ha) hr
  exact key l [] s bs rfl h0 hrun

theorem forM_one (f : α → EStateM ε σ PUnit) (a : α) : [a].forM f = f a := by
  rw [List.forM_eq_forM, List.forM_cons, List.forM_nil]
  exact bind_pure_unit

theorem forM_two (f : α → EStateM ε σ PUnit) (a b : α) : [a, b].forM f = (do f a; f b) := by
  rw [List.forM_eq_forM, List.forM_cons, ← List.forM_eq_forM, forM_one]

theorem forM_append_ok {l₁ l₂ : List α} {s t : σ} (h : (l₁.forM f).run s = .ok ⟨⟩ t) :
    ((l₁ ++ l₂).forM f).run s = (l₂.forM f).run t := by
  rw [List.forM_eq_forM, List.forM_append]
  exact bind_of_ok h

theorem tryStep_ok {b : Bool} {a : α} {s t : σ} :
    (tryStep f b a).run s = .ok false t ↔ b = false ∧ (f a).run s = .ok ⟨⟩ t := by
  unfold tryStep
  simp only [bind_ok, attempt_ok, EStateM.run_pure, EStateM.Result.ok.injEq,
    Bool.or_eq_false_iff]
  constructor
  · rintro ⟨_, _, ⟨_, rfl, h⟩ | ⟨_, rfl, -⟩, ⟨hb, hr⟩, rfl⟩
    · exact ⟨hb, h⟩
    · cases hr
  · rintro ⟨hb, h⟩
    exact ⟨_, t, Or.inl ⟨_, rfl, h⟩, ⟨hb, rfl⟩, rfl⟩

theorem tryFold_ok {l : List α} {b : Bool} {s t : σ} :
    (l.foldlM (tryStep f) b).run s = .ok false t ↔ b = false ∧ (l.forM f).run s = .ok ⟨⟩ t := by
  induction l generalizing b s with
  | nil => simp [List.foldlM_nil, EStateM.run_pure]
  | cons a l ih =>
    rw [List.forM_eq_forM, List.foldlM_cons, List.forM_cons, bind_ok, bind_ok]
    constructor
    · rintro ⟨c, s', hc, h⟩
      obtain ⟨rfl, hl⟩ := ih.1 h
      obtain ⟨hb, ha⟩ := tryStep_ok.1 hc
      exact ⟨hb, _, s', ha, hl⟩
    · rintro ⟨hb, _, s', ha, hl⟩
      exact ⟨false, s', tryStep_ok.2 ⟨hb, ha⟩, ih.2 ⟨rfl, hl⟩⟩

/-- A loop that carries on past failures succeeds exactly when the loop that does not would. -/
theorem tryAll_ok {l : List α} {s t : σ} {e : ε} {u : Unit} :
    (tryAll e f l).run s = .ok u t ↔ (l.forM f).run s = .ok ⟨⟩ t := by
  unfold tryAll
  simp only [bind_ok, failIf_ok, Bool.not_eq_true]
  constructor
  · rintro ⟨b, s', h, rfl, rfl⟩
    exact (tryFold_ok.1 h).2
  · exact fun h => ⟨false, t, tryFold_ok.2 ⟨rfl, h⟩, rfl, rfl⟩

theorem Keeps.tryAll {R : σ → σ → Prop} (hR : Frame R) {l : List α} {e : ε}
    (h : ∀ a ∈ l, Keeps R (f a)) : Keeps R (tryAll e f l) :=
  Keeps.bind hR (Keeps.foldlM hR fun _ a ha => Keeps.bind hR (Keeps.attempt (h a ha)) fun _ =>
    Keeps.pure hR _) fun _ => Keeps.failIf hR _ _

theorem foldlM_ok {g : β → α → EStateM ε σ β} {l : List α} {s t : σ} {b c : β}
    (I : List α → β → σ → Prop) (hrun : (l.foldlM g b).run s = .ok c t) (h0 : I [] b s)
    (hstep : ∀ pre a post b c t t', l = pre ++ a :: post → I pre b t →
      (g b a).run t = .ok c t' → I (pre ++ [a]) c t') : I l c t := by
  have key : ∀ (post pre : List α) (b : β) (s : σ), l = pre ++ post → I pre b s →
      (post.foldlM g b).run s = .ok c t → I l c t := by
    intro post
    induction post with
    | nil =>
      intro pre b s hl hI hr
      rw [List.foldlM_nil, EStateM.run_pure] at hr
      cases hr
      simpa [hl] using hI
    | cons a post ih =>
      intro pre b s hl hI hr
      rw [List.foldlM_cons, bind_ok] at hr
      obtain ⟨c', t', ha, hr⟩ := hr
      exact ih (pre ++ [a]) c' t' (by simp [hl]) (hstep pre a post b c' s t' hl hI ha) hr
  exact key l [] b s rfl h0 hrun

theorem foldlM_error {g : β → α → EStateM ε σ β} {l : List α} {s t : σ} {b : β} {e : ε}
    (hrun : (l.foldlM g b).run s = .error e t) :
    ∃ pre a post c s', l = pre ++ a :: post ∧ (pre.foldlM g b).run s = .ok c s'
      ∧ (g c a).run s' = .error e t := by
  induction l generalizing b s with
  | nil =>
    rw [List.foldlM_nil, EStateM.run_pure] at hrun
    cases hrun
  | cons a l ih =>
    rw [List.foldlM_cons, bind_error] at hrun
    rcases hrun with h | ⟨b', s', ha, h⟩
    · exact ⟨[], a, l, b, s, rfl, rfl, h⟩
    · obtain ⟨pre, a', post, c, s'', hl, hpre, hfail⟩ := ih h
      refine ⟨a :: pre, a', post, c, s'', by simp [hl], ?_, hfail⟩
      rw [List.foldlM_cons, bind_of_ok ha]
      exact hpre

/-- Where the steps of one loop succeed those of the other do, so the loops do too. -/
theorem foldlM_ok_of_steps {f g : β → α → EStateM ε σ β}
    (h : ∀ b a s c t, (f b a).run s = .ok c t → (g b a).run s = .ok c t) :
    ∀ {l : List α} {b c : β} {s t : σ}, (l.foldlM f b).run s = .ok c t →
      (l.foldlM g b).run s = .ok c t
  | [], _, _, _, _, hrun => hrun
  | a :: l, b, c, s, t, hrun => by
    rw [List.foldlM_cons, bind_ok] at hrun ⊢
    obtain ⟨b', s', ha, hl⟩ := hrun
    exact ⟨b', s', h b a s b' s' ha, foldlM_ok_of_steps h hl⟩

/-- A loop whose steps succeed where `I` holds, and keep it, succeeds. -/
theorem mapM_run {g : α → EStateM ε σ β} (I : σ → Prop) :
    ∀ {l : List α} {s : σ}, (∀ a ∈ l, ∀ s, I s → ∃ b t, (g a).run s = .ok b t ∧ I t) → I s →
      ∃ bs t, (l.mapM g).run s = .ok bs t ∧ I t
  | [], s, _, hs => ⟨[], s, by rw [List.mapM_nil]; rfl, hs⟩
  | a :: l, s, hg, hs => by
    obtain ⟨b, t, ha, ht⟩ := hg a List.mem_cons_self s hs
    obtain ⟨bs, u, hl, hu⟩ := mapM_run I (fun c hc => hg c (List.mem_cons_of_mem a hc)) ht
    refine ⟨b :: bs, u, ?_, hu⟩
    rw [List.mapM_cons, bind_of_ok ha, bind_of_ok hl]
    rfl

/-- A loop of steps that leave the part `π` of the state alone collects results that stand to that
part as each step's result does. -/
theorem mapM_reads {γ : Type} {g : α → EStateM ε σ β} (π : σ → γ) (P : γ → α → β → Prop) :
    ∀ {l : List α} {s t : σ} {bs : List β},
      (∀ a ∈ l, ∀ s b t, (g a).run s = .ok b t → P (π s) a b ∧ π t = π s) →
      (l.mapM g).run s = .ok bs t → List.Forall₂ (P (π s)) l bs ∧ π t = π s
  | [], s, t, bs, _, h => by
    rw [List.mapM_nil, EStateM.run_pure] at h
    cases h
    exact ⟨List.Forall₂.nil, rfl⟩
  | a :: l, s, t, bs, hg, h => by
    rw [List.mapM_cons, bind_ok] at h
    obtain ⟨b, s₁, ha, h⟩ := h
    rw [bind_ok] at h
    obtain ⟨bs', s₂, hl, h⟩ := h
    cases h
    obtain ⟨hb, hs₁⟩ := hg a List.mem_cons_self s b s₁ ha
    obtain ⟨hbs, hs₂⟩ := mapM_reads π P (fun c hc => hg c (List.mem_cons_of_mem a hc)) hl
    rw [hs₁] at hbs
    exact ⟨List.Forall₂.cons hb hbs, hs₂.trans hs₁⟩

/-- A loop of steps that only read, from the part `π` of the state, collects what each reads. -/
theorem mapM_ok_of_reads {γ : Type} {g : α → EStateM ε σ β} (π : σ → γ) (r : γ → α → β)
    (hg : ∀ a s b t, (g a).run s = .ok b t → b = r (π s) a ∧ π t = π s) {l : List α} {s t : σ}
    {bs : List β} (h : (l.mapM g).run s = .ok bs t) : bs = l.map (r (π s)) ∧ π t = π s := by
  obtain ⟨hbs, ht⟩ := mapM_reads π (fun c a b => r c a = b)
    (fun a _ s b t hrun => ⟨(hg a s b t hrun).1.symm, (hg a s b t hrun).2⟩) h
  refine ⟨?_, ht⟩
  rw [← List.forall₂_map_left_iff, List.forall₂_eq_eq_eq] at hbs
  exact hbs.symm

end Loops

end Prog
