import Pqos.Lib.Prog

/-!
# Programs that implement a service

A service says of each call what it may answer and what it may leave behind. A program whose state
is more than the service speaks of is seen through a view of its state: it shows a relation if each
of its runs, failed or not, is one that the relation allows between the views of the two states. If
each call shows what the service says of it, every history of calls is one of the service.
-/

namespace Refine

open Prog

variable {ε σ τ α β γ ι ρ : Type}

/-- Each run of `x` is one that `R` allows, seen through `view`. -/
def Shows (view : σ → τ) (R : τ → Except ε α → τ → Prop) (x : EStateM ε σ α) : Prop :=
  ∀ s, R (view s) (outcome (x.run s)) (view (final (x.run s)))

/-- Nothing changes, and an answer is one that `P` allows. -/
def Reads (P : τ → α → Prop) (a : τ) (r : Except ε α) (a' : τ) : Prop :=
  a' = a ∧ ∀ x, r = .ok x → P a x

/-- A success changes the state by `f`, a failure not at all. -/
def Sets (f : τ → τ) (a : τ) (r : Except ε α) (a' : τ) : Prop :=
  (∀ x, r = .ok x → a' = f a) ∧ ∀ e, r = .error e → a' = a

/-- A success acts by all of `l` in turn and answers what `P` allows. A failure acts by some of the
first elements and may leave the next one half done, as `torn` says. -/
def SetsAll (act : β → τ → τ) (torn : β → τ → τ → Prop) (l : List β) (P : α → Prop) (a : τ)
    (r : Except ε α) (a' : τ) : Prop :=
  (∀ x, r = .ok x → P x ∧ a' = l.foldl (fun a b => act b a) a)
    ∧ ∀ e, r = .error e → ∃ pre, pre <+: l ∧ (a' = pre.foldl (fun a b => act b a) a
      ∨ ∃ b, pre ++ [b] <+: l ∧ torn b (pre.foldl (fun a b => act b a) a) a')

/-- Nothing is left half done. -/
def whole : β → τ → τ → Prop := fun _ _ _ => False

/-- A success acts by all of `l` in turn, a failure by any part of it. -/
def SetsSome (act : β → τ → τ) (l : List β) (a : τ) (r : Except ε α) (a' : τ) : Prop :=
  (∀ x, r = .ok x → a' = l.foldl (fun a b => act b a) a)
    ∧ ∀ e, r = .error e → ∃ sub : List β, sub.Sublist l ∧ a' = sub.foldl (fun a b => act b a) a

/-- What `R` says, of answers wrapped by `f`. -/
def Wraps (f : α → β) (R : τ → Except ε α → τ → Prop) (a : τ) (r : Except ε β) (a' : τ) : Prop :=
  ∃ r', r = r'.map f ∧ R a r' a'

/-! ## Showing a relation -/

section Shows

variable {view : σ → τ} {R R' : τ → Except ε α → τ → Prop} {x : EStateM ε σ α}

theorem Shows.mono (hx : Shows view R x) (h : ∀ a r a', R a r a' → R' a r a') : Shows view R' x :=
  fun s => h _ _ _ (hx s)

theorem Shows.of_ok {s t : σ} {a : α} (hx : Shows view R x) (h : x.run s = .ok a t) :
    R (view s) (.ok a) (view t) := by
  have := hx s
  rwa [h] at this

theorem Shows.of_error {s t : σ} {e : ε} (hx : Shows view R x) (h : x.run s = .error e t) :
    R (view s) (.error e) (view t) := by
  have := hx s
  rwa [h] at this

theorem Shows.map {f : α → β} (hx : Shows view R x) : Shows view (Wraps f R) (f <$> x) := by
  intro s
  have hs := hx s
  rw [map_eq_pure_bind]
  rcases hrun : x.run s with ⟨a, t⟩ | ⟨e, t⟩ <;> rw [hrun] at hs
  · rw [bind_of_ok hrun]
    exact ⟨.ok a, rfl, hs⟩
  · rw [bind_of_error hrun]
    exact ⟨.error e, rfl, hs⟩

theorem Wraps.ok {f : α → β} {R : τ → Except ε α → τ → Prop} {a a' : τ} {y : β}
    (h : Wraps f R a (.ok y) a') : ∃ x, y = f x ∧ R a (.ok x) a' := by
  obtain ⟨r, hr, h⟩ := h
  rcases r with e | x
  · cases hr
  · exact ⟨x, Except.ok.inj hr, h⟩

theorem SetsAll.wraps {act : γ → τ → τ} {torn : γ → τ → τ → Prop} {l : List γ} {P : α → Prop}
    {Q : β → Prop} {f : α → β} {a a' : τ} {r : Except ε β}
    (h : Wraps f (SetsAll act torn l P) a r a')
    (hQ : ∀ x, P x → Q (f x)) : SetsAll act torn l Q a r a' := by
  obtain ⟨r', rfl, hok, herr⟩ := h
  rcases r' with e | b
  · exact ⟨nofun, fun _ _ => herr e rfl⟩
  · obtain ⟨hP, hview⟩ := hok b rfl
    exact ⟨fun x hx => ⟨Except.ok.inj hx ▸ hQ b hP, hview⟩, nofun⟩

/-- What a program answers may be thrown away. -/
theorem Shows.discard {f : τ → τ} (hx : Shows view (Sets f) x) :
    Shows view (Sets f) (do let _ ← x; return : EStateM ε σ Unit) := by
  have hdrop : (do let _ ← x; return : EStateM ε σ Unit) = (fun _ => ()) <$> x :=
    (map_eq_pure_bind _ _).symm
  rw [hdrop]
  refine hx.map.mono fun _ r _ ⟨r', hr, hok, herr⟩ => ?_
  subst hr
  rcases r' with e | b
  · exact ⟨nofun, fun _ _ => herr e rfl⟩
  · exact ⟨fun _ _ => hok b rfl, nofun⟩

theorem Sets.of_ok {f : τ → τ} {a a' : τ} {x : α} (h : a' = f a) : Sets (ε := ε) f a (.ok x) a' :=
  ⟨fun _ _ => h, nofun⟩

theorem Sets.of_error {f : τ → τ} {a a' : τ} {e : ε} (h : a' = a) :
    Sets (α := α) f a (.error e) a' :=
  ⟨nofun, fun _ _ => h⟩

/-- A relation by which a failure may change nothing. -/
def MayFail (R : τ → Except ε α → τ → Prop) : Prop := ∀ a e, R a (.error e) a

theorem Reads.mayFail {P : τ → α → Prop} : MayFail (ε := ε) (Reads P) :=
  fun _ _ => ⟨rfl, nofun⟩

theorem Sets.mayFail {f : τ → τ} : MayFail (ε := ε) (α := α) (Sets f) :=
  fun _ _ => ⟨nofun, fun _ _ => rfl⟩

theorem SetsAll.mayFail {act : β → τ → τ} {torn : β → τ → τ → Prop} {l : List β} {P : α → Prop} :
    MayFail (ε := ε) (SetsAll act torn l P) :=
  fun _ _ => ⟨nofun, fun _ _ => ⟨[], List.nil_prefix, Or.inl rfl⟩⟩

theorem SetsSome.mayFail {act : β → τ → τ} {l : List β} :
    MayFail (ε := ε) (α := α) (SetsSome act l) :=
  fun _ _ => ⟨nofun, fun _ _ => ⟨[], List.nil_sublist l, rfl⟩⟩

theorem shows_throw (hR : MayFail R) (e : ε) : Shows view R (throw e) := fun s => hR (view s) e

theorem shows_failIf_bind (hR : MayFail R) {c : Prop} [Decidable c] {e : ε}
    {f : Unit → EStateM ε σ α} (hf : ¬ c → Shows view R (f ())) :
    Shows view R (failIf c e >>= f) := by
  intro s
  rw [failIf_bind_run]
  split_ifs with hc
  · exact hR _ e
  · exact hf hc s

theorem shows_ofExcept_bind (hR : MayFail R) {r : Except ε β} {f : β → EStateM ε σ α}
    (hf : ∀ b, r = .ok b → Shows view R (f b)) : Shows view R (ofExcept r >>= f) := by
  intro s
  rcases r with e | b
  · rw [bind_of_error (ofExcept_error.2 ⟨rfl, rfl⟩)]
    exact hR _ e
  · rw [bind_of_ok (ofExcept_ok.2 ⟨rfl, rfl⟩)]
    exact hf b rfl s

theorem shows_ofOption_bind (hR : MayFail R) {e : ε} {o : Option β} {f : β → EStateM ε σ α}
    (hf : ∀ b, o = some b → Shows view R (f b)) : Shows view R (ofOption e o >>= f) := by
  intro s
  rcases o with _ | b
  · rw [bind_of_error (ofOption_error.2 ⟨rfl, rfl, rfl⟩)]
    exact hR _ e
  · rw [bind_of_ok (ofOption_ok.2 ⟨rfl, rfl⟩)]
    exact hf b rfl s

/-- What is read first may be relied on in the rest. -/
theorem Shows.bind_of_reads (hR : MayFail R) {P : τ → β → Prop} {y : EStateM ε σ β}
    {f : β → EStateM ε σ α} (hy : Shows view (Reads P) y)
    (hf : ∀ b s, P (view s) b → R (view s) (outcome ((f b).run s)) (view (final ((f b).run s)))) :
    Shows view R (y >>= f) := by
  intro s
  rcases hrun : y.run s with ⟨b, t⟩ | ⟨e, t⟩
  · obtain ⟨hsame, hP⟩ := hy.of_ok hrun
    rw [bind_of_ok hrun, ← hsame]
    exact hf b t (hsame ▸ hP b rfl)
  · obtain ⟨hsame, -⟩ := hy.of_error hrun
    rw [bind_of_error hrun, outcome_error, final_error, hsame]
    exact hR _ e

theorem Sets.all {act : β → τ → τ} {torn : β → τ → τ → Prop} {b : β} {P : α → Prop} {a a' : τ}
    {r : Except ε α} (h : Sets (act b) a r a') (hP : ∀ x, P x) : SetsAll act torn [b] P a r a' :=
  ⟨fun x hx => ⟨hP x, h.1 x hx⟩, fun e he => ⟨[], List.nil_prefix, Or.inl (h.2 e he)⟩⟩

/-! ## What a relation keeps -/

section Frames

variable {F : τ → τ → Prop} {act : β → τ → τ} {torn : β → τ → τ → Prop} {l : List β} {a a' : τ}
  {r : Except ε α}

theorem Reads.frame {P : τ → α → Prop} (hF : Frame F) (h : Reads P a r a') : F a a' :=
  h.1 ▸ hF.refl a

theorem Sets.frame {f : τ → τ} (hF : Frame F) (hf : ∀ a, F a (f a)) (h : Sets f a r a') :
    F a a' := by
  rcases r with e | x
  · exact h.2 e rfl ▸ hF.refl a
  · exact h.1 x rfl ▸ hf a

theorem foldl_frame (hF : Frame F) : ∀ {l : List β} {a : τ}, (∀ b ∈ l, ∀ a, F a (act b a)) →
    F a (l.foldl (fun a b => act b a) a)
  | [], a, _ => hF.refl a
  | b :: _, a, hact => hF.trans (hact b List.mem_cons_self a)
      (foldl_frame hF fun c hc => hact c (List.mem_cons_of_mem b hc))

theorem SetsAll.frame {P : α → Prop} (hF : Frame F) (hact : ∀ b ∈ l, ∀ a, F a (act b a))
    (htorn : ∀ b ∈ l, ∀ a a', torn b a a' → F a a') (h : SetsAll act torn l P a r a') : F a a' := by
  rcases r with e | x
  · obtain ⟨pre, hpre, rfl | ⟨b, hb, hdone⟩⟩ := h.2 e rfl
    · exact foldl_frame hF fun b hb => hact b (hpre.subset hb)
    · exact hF.trans (foldl_frame hF fun c hc => hact c (hpre.subset hc))
        (htorn b (hb.subset (by simp)) _ _ hdone)
  · exact (h.1 x rfl).2 ▸ foldl_frame hF hact

theorem SetsSome.frame (hF : Frame F) (hact : ∀ b ∈ l, ∀ a, F a (act b a))
    (h : SetsSome act l a r a') : F a a' := by
  rcases r with e | x
  · obtain ⟨sub, hsub, rfl⟩ := h.2 e rfl
    exact foldl_frame hF fun b hb => hact b (hsub.subset hb)
  · exact h.1 x rfl ▸ foldl_frame hF hact

end Frames

section Loops

variable {act : β → τ → τ} {torn : β → τ → τ → Prop}

/-- After all of one list, what is done of another is done of both together. -/
theorem SetsAll.append {ε' : Type} {l l' : List β} {P : α → Prop} {Q : γ → Prop} {a b c : τ} {x : α}
    {r : Except ε' γ} (h : SetsAll act torn l P a (.ok x : Except ε α) b)
    (h' : SetsAll act torn l' Q b r c) :
    SetsAll act torn (l ++ l') Q a r c := by
  obtain ⟨-, rfl⟩ := h.1 x rfl
  refine ⟨fun y hy => ?_, fun e he => ?_⟩
  · obtain ⟨hQ, rfl⟩ := h'.1 y hy
    exact ⟨hQ, List.foldl_append.symm⟩
  · obtain ⟨pre, hpre, hstep⟩ := h'.2 e he
    refine ⟨l ++ pre, (List.prefix_append_right_inj l).2 hpre, ?_⟩
    rw [List.foldl_append]
    refine hstep.imp_right ?_
    rintro ⟨d, hd, htorn⟩
    exact ⟨d, by rwa [List.append_assoc, List.prefix_append_right_inj], htorn⟩

/-- A failure on the way through a list is one on the way through a longer list. -/
theorem SetsAll.error_append {ε' : Type} {l : List β} {P : α → Prop} {Q : γ → Prop} {a a' : τ}
    {e : ε} {e' : ε'} (l' : List β) (h : SetsAll act torn l P a (.error e) a') :
    SetsAll act torn (l ++ l') Q a (.error e') a' := by
  obtain ⟨pre, hpre, hstep⟩ := h.2 e rfl
  have hgrow : ∀ {k : List β}, k <+: l → k <+: l ++ l' := fun h => h.trans (List.prefix_append l l')
  exact ⟨nofun, fun _ _ => ⟨pre, hgrow hpre, hstep.imp_right fun ⟨d, hd, htorn⟩ =>
    ⟨d, hgrow hd, htorn⟩⟩⟩

/-- All of it may have been done before a failure. -/
theorem SetsAll.of_done {l : List β} {P : α → Prop} {a a' : τ} {e : ε}
    (h : a' = l.foldl (fun a b => act b a) a) : SetsAll act torn l P a (.error e) a' :=
  ⟨nofun, fun _ _ => ⟨l, List.prefix_rfl, Or.inl h⟩⟩

/-- One element, said in the words of another. -/
theorem SetsAll.one {act' : γ → τ → τ} {torn' : γ → τ → τ → Prop} {b : β} {c : γ} {P : α → Prop}
    {a a' : τ} {r : Except ε α} (h : SetsAll act torn [b] P a r a') (hact : act b a = act' c a)
    (htorn : ∀ a', torn b a a' → torn' c a a') : SetsAll act' torn' [c] P a r a' := by
  refine ⟨fun x hx => ⟨(h.1 x hx).1, (h.1 x hx).2.trans hact⟩, fun e he => ?_⟩
  obtain ⟨pre, hpre, hstep⟩ := h.2 e he
  rcases pre with _ | ⟨d, pre⟩
  · refine ⟨[], List.nil_prefix, hstep.imp_right ?_⟩
    rintro ⟨d, hd, htorn'⟩
    obtain rfl := (List.cons_prefix_cons.1 hd).1
    exact ⟨c, List.prefix_rfl, htorn a' htorn'⟩
  · obtain ⟨rfl, hnil⟩ := List.cons_prefix_cons.1 hpre
    obtain rfl := List.prefix_nil.1 hnil
    refine ⟨[c], List.prefix_rfl, Or.inl ?_⟩
    rcases hstep with rfl | ⟨d', hd', -⟩
    · exact hact
    · have hlen := hd'.length_le
      simp at hlen

/-- One program after another. -/
theorem Shows.bind_setsAll {l l' : List β} {P : γ → Prop} {Q : α → Prop} {y : EStateM ε σ γ}
    {f : γ → EStateM ε σ α} (hy : Shows view (SetsAll act torn l P) y)
    (hf : ∀ c, Shows view (SetsAll act torn l' Q) (f c)) :
    Shows view (SetsAll act torn (l ++ l') Q) (y >>= f) := by
  intro s
  rcases hrun : y.run s with ⟨c, t⟩ | ⟨e, t⟩
  · rw [bind_of_ok hrun]
    exact (hy.of_ok hrun).append (hf c t)
  · rw [bind_of_error hrun]
    exact (hy.of_error hrun).error_append l'

/-- A loop does what its steps do. -/
theorem Shows.forM_map {g : γ → β} {f : γ → EStateM ε σ PUnit} :
    ∀ {l : List γ}, (∀ c ∈ l, Shows view (SetsAll act torn [g c] fun _ => True) (f c)) →
      Shows view (SetsAll act torn (l.map g) fun _ => True) (l.forM f)
  | [], _ => fun _ => ⟨fun _ _ => ⟨trivial, rfl⟩, nofun⟩
  | c :: l, hf => by
    rw [List.forM_eq_forM, List.forM_cons, List.map_cons, ← List.singleton_append]
    exact Shows.bind_setsAll (hf c List.mem_cons_self) fun _ =>
      Shows.forM_map fun d hd => hf d (List.mem_cons_of_mem c hd)

theorem Shows.forM {f : β → EStateM ε σ PUnit} {l : List β}
    (hf : ∀ b ∈ l, Shows view (SetsAll act torn [b] fun _ => True) (f b)) :
    Shows view (SetsAll act torn l fun _ => True) (l.forM f) := by
  simpa using Shows.forM_map (g := id) hf

theorem Shows.forM_sets {f : β → EStateM ε σ PUnit} {l : List β}
    (hf : ∀ b ∈ l, Shows view (Sets (act b)) (f b)) :
    Shows view (SetsAll act torn l fun _ => True) (l.forM f) :=
  Shows.forM fun b hb => (hf b hb).mono fun _ _ _ h => h.all fun _ => trivial

/-- A loop whose steps also answer, each the `g` of its element. -/
theorem Shows.mapM {g : β → γ} {f : β → EStateM ε σ γ} :
    ∀ {l : List β}, (∀ b ∈ l, Shows view (SetsAll act torn [b] fun c => c = g b) (f b)) →
      Shows view (SetsAll act torn l fun cs => cs = l.map g) (l.mapM f)
  | [], _ => fun _ => ⟨fun _ h => ⟨(Except.ok.inj h).symm, rfl⟩, nofun⟩
  | b :: l, hf => by
    intro s
    have hfirst := hf b List.mem_cons_self
    rw [List.mapM_cons]
    rcases hrun : (f b).run s with ⟨c, t⟩ | ⟨e, t⟩
    · have hrest := Shows.mapM (fun b' hb' => hf b' (List.mem_cons_of_mem _ hb')) t
      have hc := ((hfirst.of_ok hrun).1 c rfl).1
      rw [bind_of_ok hrun]
      rcases hmore : (l.mapM f).run t with ⟨cs, u⟩ | ⟨e, u⟩ <;> rw [hmore] at hrest
      · obtain ⟨hcs, hview⟩ := ((hfirst.of_ok hrun).append hrest).1 cs rfl
        rw [bind_of_ok hmore]
        exact ⟨fun x hx => ⟨by rw [← Except.ok.inj hx, hc, hcs, List.map_cons], hview⟩, nofun⟩
      · rw [bind_of_error hmore]
        exact ⟨nofun, fun _ _ => ((hfirst.of_ok hrun).append hrest).2 e rfl⟩
    · rw [bind_of_error hrun]
      exact (hfirst.of_error hrun).error_append l

/-- A loop that carries on past failures does some of it. -/
theorem Shows.tryAll {f : β → EStateM ε σ PUnit} {e : ε} {l : List β}
    (hf : ∀ b ∈ l, Shows view (Sets (act b)) (f b)) :
    Shows view (SetsSome act l) (Prog.tryAll e f l) := by
  have key : ∀ (l : List β) (failed : Bool) (s : σ),
      (∀ b ∈ l, Shows view (Sets (act b)) (f b)) → ∃ failed' t sub,
        (l.foldlM (tryStep f) failed).run s = .ok failed' t ∧ sub.Sublist l
          ∧ view t = sub.foldl (fun a b => act b a) (view s) ∧ (failed' = false → sub = l) := by
    intro l
    induction l with
    | nil => exact fun failed s _ => ⟨failed, s, [], rfl, .slnil, rfl, fun _ => rfl⟩
    | cons b l ih =>
      intro failed s hf
      have hrest := fun b' hb' => hf b' (List.mem_cons_of_mem b hb')
      rw [List.foldlM_cons]
      rcases hrun : (f b).run s with ⟨⟨⟩, t⟩ | ⟨e, t⟩
      · have hstep : (tryStep f failed b).run s = .ok failed t := by
          unfold tryStep
          rw [attempt_bind_of_ok hrun]
          cases failed <;> rfl
        obtain ⟨failed', u, sub, hu, hsub, hview, hall⟩ := ih failed t hrest
        refine ⟨failed', u, b :: sub, (bind_of_ok hstep).trans hu, hsub.cons_cons b, ?_, ?_⟩
        · rw [hview, List.foldl_cons, ((hf b List.mem_cons_self).of_ok hrun).1 ⟨⟩ rfl]
        · exact fun hok => by rw [hall hok]
      · have hstep : (tryStep f failed b).run s = .ok true t := by
          unfold tryStep
          rw [attempt_bind_of_error hrun]
          cases failed <;> rfl
        obtain ⟨failed', u, sub, hu, hsub, hview, -⟩ := ih true t hrest
        refine ⟨failed', u, sub, (bind_of_ok hstep).trans hu, hsub.cons b, ?_, ?_⟩
        · rw [hview, ((hf b List.mem_cons_self).of_error hrun).2 e rfl]
        · intro hok
          have := (tryFold_ok.1 (hok ▸ hu)).1
          cases this
  intro s
  obtain ⟨failed, t, sub, hrun, hsub, hview, hall⟩ := key l false s hf
  unfold Prog.tryAll
  rw [bind_of_ok hrun, failIf_run]
  cases failed
  · rw [if_neg (by simp)]
    exact ⟨fun _ _ => (hall rfl) ▸ hview, nofun⟩
  · rw [if_pos rfl]
    exact ⟨nofun, fun _ _ => ⟨sub, hsub, hview⟩⟩

end Loops

end Shows

/-! ## Histories -/

/-- What a program answers to calls one after another, and the state it ends in. -/
def history (call : ι → EStateM ε σ ρ) : List ι → σ → List (ι × Except ε ρ) × σ
  | [], s => ([], s)
  | i :: l, s =>
    let r := (call i).run s
    ((i, outcome r) :: (history call l (final r)).1, (history call l (final r)).2)

section Run

/-- What each call keeps, a history of calls keeps. -/
theorem history_inv {view : σ → τ} {S : ι → τ → Except ε ρ → τ → Prop} {call : ι → EStateM ε σ ρ}
    {I : τ → Prop} {l : List ι} {s : σ} (hcalls : ∀ i ∈ l, Shows view (S i) (call i))
    (hstep : ∀ i ∈ l, ∀ a r b, S i a r b → I a → I b) (hI : I (view s)) :
    I (view (history call l s).2) := by
  induction l generalizing s with
  | nil => exact hI
  | cons i l ih =>
    have hfirst := hstep i List.mem_cons_self _ _ _ (hcalls i List.mem_cons_self s) hI
    exact ih (fun j hj => hcalls j (List.mem_cons_of_mem i hj))
      (fun j hj => hstep j (List.mem_cons_of_mem i hj)) hfirst

end Run

end Refine
