import Pqos.Proofs.Assign
import Pqos.Proofs.Probe

/-!
# The two probes

Which domain and class are probed is settled by the associations alone: the first position that is
the id of a domain with a free class, or of no domain at all, and the highest class free there.
From there each probe is the probe of that class, on a machine where no access fails.
-/

namespace Pqos

open Prog

variable {p : Platform} {technology : Nat} {s t : Msr}

/-! ## The free class -/

/-- The class `k` may be given out, and no core in the scope of `id` uses it. -/
def FreeAt (p : Platform) (technology : Nat) (s : Msr) (id k : Nat) : Prop :=
  (∃ hi, getHiCosId p technology = .ok hi ∧ 1 ≤ k ∧ k ≤ hi)
    ∧ ∀ c, InScope p technology id c → s.cos c.lcore ≠ k

/-- `k` is the highest free class at the first of `n` ids that has one. -/
structure FirstFree (p : Platform) (technology n : Nat) (s : Msr) (id k : Nat) : Prop where
  id_lt : id < n
  free : FreeAt p technology s id k
  highest : ∀ d, k < d → ¬ FreeAt p technology s id d
  first : ∀ j < id, ∀ d, ¬ FreeAt p technology s j d

theorem FirstFree.unique {n id k id' k' : Nat} (h : FirstFree p technology n s id k)
    (h' : FirstFree p technology n s id' k') : id = id' ∧ k = k' := by
  obtain rfl : id = id' := by
    rcases Nat.lt_trichotomy id id' with hlt | heq | hgt
    · exact absurd h.free (h'.first id hlt k)
    · exact heq
    · exact absurd h'.free (h.first id' hgt k')
  refine ⟨rfl, ?_⟩
  rcases Nat.lt_trichotomy k k' with hlt | heq | hgt
  · exact absurd h'.free (h.highest k' hlt)
  · exact heq
  · exact absurd h.free (h'.highest k hgt)

/-- The search for an unused class finds the highest, or there is none. -/
theorem getUnusedCos_spec (hp : p.Reliable) {hi : Nat} (hhi : getHiCosId p technology = .ok hi)
    (id : Nat) (s : Msr) : ∃ t, t.mem = s.mem ∧
      ((∃ k, (getUnusedCos p id technology).run s = .ok k t ∧ FreeAt p technology s id k
          ∧ ∀ d, k < d → ¬ FreeAt p technology s id d)
        ∨ (getUnusedCos p id technology).run s = .error .resource t
          ∧ ∀ d, ¬ FreeAt p technology s id d) := by
  obtain ⟨t, hmem, hrun⟩ := getUnusedCos_eq hp hhi id s
  refine ⟨t, hmem, ?_⟩
  have hbusy (d : Nat) (hd : d ≤ hi → ∃ c, InScope p technology id c ∧ s.cos c.lcore = d) :
      ¬ FreeAt p technology s id d := by
    rintro ⟨⟨hi', hhi', -, hle⟩, hfree⟩
    rw [hhi] at hhi'
    cases hhi'
    obtain ⟨c, hc, hcd⟩ := hd hle
    exact hfree c hc hcd
  rcases hfind : findUnused (usedCos p technology id hi s) hi with _ | k <;> rw [hfind] at hrun
  · refine Or.inr ⟨hrun, fun d hd => hbusy d (fun hle => ?_) hd⟩
    obtain ⟨_, -, h1, -⟩ := hd.1
    exact (mem_usedCos hle).1 (findUnused_none.1 hfind d h1 hle)
  · obtain ⟨h1, hle, hfree, hmax⟩ := findUnused_usedCos.1 hfind
    exact Or.inl ⟨k, hrun, ⟨⟨hi, hhi, h1, hle⟩, hfree⟩, fun d hkd => hbusy d (hmax d hkd)⟩

theorem FreeAt.of_mem (hs : t.mem = s.mem) {id k : Nat} :
    FreeAt p technology t id k ↔ FreeAt p technology s id k := by
  have hcos : t.cos = s.cos := funext fun core => by rw [Msr.cos, Msr.cos, Msr.assoc, Msr.assoc, hs]
  rw [FreeAt, FreeAt, hcos]

/-- What a search over ids leaves: the first with a free class and the highest that is free there,
or none. -/
def Searched (p : Platform) (technology : Nat) (s : Msr) (l : List Nat) :
    EStateM.Result Err Msr (Nat × Nat) → Prop
  | .ok site u => u.mem = s.mem ∧ FreeAt p technology s site.1 site.2
      ∧ (∀ d, site.2 < d → ¬ FreeAt p technology s site.1 d)
      ∧ ∃ pre post, l = pre ++ site.1 :: post ∧ ∀ j ∈ pre, ∀ d, ¬ FreeAt p technology s j d
  | .error _ u => u.mem = s.mem ∧ ∀ j ∈ l, ∀ d, ¬ FreeAt p technology s j d

theorem findFreeCos_searched (hp : p.Reliable) {hi : Nat}
    (hhi : getHiCosId p technology = .ok hi) : ∀ (l : List Nat) {t : Msr}, t.mem = s.mem →
      Searched p technology s l ((findFreeCos p technology l).run t)
  | [], t, ht => ⟨ht, by simp⟩
  | id :: l, t, ht => by
    obtain ⟨u, hu, hfound | hnone⟩ := getUnusedCos_spec hp hhi id t
    · obtain ⟨k, hrun, hfree, hmax⟩ := hfound
      rw [findFreeCos, attempt_bind_of_ok hrun]
      simp only [FreeAt.of_mem ht] at hfree hmax
      exact ⟨hu.trans ht, hfree, hmax, [], l, rfl, by simp⟩
    · obtain ⟨hrun, hnone⟩ := hnone
      simp only [FreeAt.of_mem ht] at hnone
      rw [findFreeCos, attempt_bind_of_error hrun]
      have hrest := findFreeCos_searched hp hhi l (hu.trans ht)
      dsimp only
      rcases hr : (findFreeCos p technology l).run u with ⟨site, v⟩ | ⟨e, v⟩ <;> rw [hr] at hrest
      · obtain ⟨hv, hfree, hmax, pre, post, rfl, hpre⟩ := hrest
        refine ⟨hv, hfree, hmax, id :: pre, post, rfl, fun j hj => ?_⟩
        rcases List.mem_cons.1 hj with rfl | hj
        · exact hnone
        · exact hpre j hj
      · refine ⟨hrest.1, fun j hj => ?_⟩
        rcases List.mem_cons.1 hj with rfl | hj
        · exact hnone
        · exact hrest.2 j hj

theorem findFreeCos_error {e : Err} (he : getHiCosId p technology = .error e) :
    ∀ l : List Nat, ∃ e', (findFreeCos p technology l).run s = .error e' s
  | [] => ⟨_, rfl⟩
  | id :: l => by
    have hrun : (getUnusedCos p id technology).run s = .error e s := by
      unfold getUnusedCos
      rw [bind_of_error (ofExcept_error.2 ⟨he, rfl⟩)]
    rw [findFreeCos, attempt_bind_of_error hrun]
    cases e with
    | resource => exact findFreeCos_error he l
    | _ => exact ⟨_, rfl⟩

/-- The site of the probe, or an error if there is none. Nothing is written. -/
theorem findFreeCos_range (hp : p.Reliable) (technology n : Nat) (s : Msr) :
    (∃ id k t, (findFreeCos p technology (List.range n)).run s = .ok (id, k) t ∧ t.mem = s.mem
        ∧ FirstFree p technology n s id k)
      ∨ (∃ e t, (findFreeCos p technology (List.range n)).run s = .error e t ∧ t.mem = s.mem)
        ∧ ∀ id k, ¬ FirstFree p technology n s id k := by
  rcases hhi : getHiCosId p technology with e | hi
  · obtain ⟨e', hrun⟩ := findFreeCos_error (s := s) hhi (List.range n)
    refine Or.inr ⟨⟨e', s, hrun, rfl⟩, fun id k h => ?_⟩
    obtain ⟨⟨hi, hhi', -⟩, -⟩ := h.free
    rw [hhi] at hhi'
    cases hhi'
  · have hsearched := findFreeCos_searched hp hhi (List.range n) (s := s) rfl
    rcases hr : (findFreeCos p technology (List.range n)).run s with ⟨site, t⟩ | ⟨e, t⟩
      <;> rw [hr] at hsearched
    · obtain ⟨ht, hfree, hmax, pre, post, hl, hpre⟩ := hsearched
      rw [List.range_eq_range'] at hl
      obtain ⟨m, hm, rfl, hpost⟩ := List.range'_eq_append_iff.1 hl
      obtain ⟨hid, hpos, -⟩ := List.range'_eq_cons_iff.1 hpost.symm
      refine Or.inl ⟨site.1, site.2, t, rfl, ht, by omega, hfree, hmax, fun j hj d => ?_⟩
      exact hpre j (List.mem_range'_1.2 (by omega)) d
    · obtain ⟨ht, hnone⟩ := hsearched
      exact Or.inr ⟨⟨e, t, rfl, ht⟩, fun id k h => hnone id (List.mem_range.2 h.id_lt) k h.free⟩

theorem getUnusedCos_confined (W : Nat → Nat → Prop) (id : Nat) :
    Keeps (Confined p W) (getUnusedCos p id technology) := by
  refine keeps_ofExcept_bind Confined.isFrame fun hi _ => ?_
  refine Keeps.bind Confined.isFrame (Keeps.mapM Confined.isFrame fun core _ => ?_) fun used =>
    Keeps.ofOption Confined.isFrame _ _
  exact Keeps.bind Confined.isFrame msrRead_confined fun v => Keeps.pure Confined.isFrame _

theorem findFreeCos_confined (W : Nat → Nat → Prop) (technology : Nat) :
    ∀ l : List Nat, Keeps (Confined p W) (findFreeCos p technology l)
  | [] => Keeps.throw Confined.isFrame _
  | id :: l => by
    refine Keeps.bind Confined.isFrame ((getUnusedCos_confined W id).attempt) fun r => ?_
    rcases r with e | k
    · cases e with
      | resource => exact findFreeCos_confined W technology l
      | _ => exact Keeps.throw Confined.isFrame _
    · exact Keeps.pure Confined.isFrame _

/-! ## From a class to a probe -/

section Benches

variable {γ α : Type} {rule : MaskRule} {P : CbmProbe γ α} {regs : γ → Nat → List Nat}
  {classes : γ → Nat} {one : Nat → Except Err Nat} {trim : Word → Word}

/-- The technology of a probe, in terms of its registers: those of a class of it, the number of its
classes, and the core that is picked for an id. -/
structure Benches (p : Platform) (rule : MaskRule) (P : CbmProbe γ α) (regs : γ → Nat → List Nat)
    (classes : γ → Nat) (one : Nat → Except Err Nat) (trim : Word → Word) : Prop where
  below : ∀ {c k}, p.capGetType P.cap = .ok c → BelowCounts p P.technology k → k < classes c
  picks : ∀ {id core}, one id = .ok core → ∃ c, InScope p P.technology id c ∧ c.lcore = core
  bench : ∀ {c id k core}, p.capGetType P.cap = .ok c → k < classes c → classes c ≤ 16 →
    one id = .ok core → Bench p rule P id k core (regs c k) trim
  get_ok : ∀ {id s tab t}, (P.get id).run s = .ok tab t →
    ∃ c core, p.capGetType P.cap = .ok c ∧ classes c ≤ 16 ∧ one id = .ok core
  get_confined : ∀ W id, Keeps (Confined p W) (P.get id)
  set_confined : ∀ {W : Nat → Nat → Prop} {id : Nat} {e : α}, (∀ c core,
    p.capGetType P.cap = .ok c → one id = .ok core → ∀ r ∈ regs c (P.classId e), W core r) →
    Keeps (Confined p W) (P.set id [e])
  entry_classId : ∀ k v, P.classId (P.entry k v) = k

theorem probeWays_confined {W : Nat → Nat → Prop} (h : Benches p rule P regs classes one trim)
    {id k : Nat} (hW : ∀ c core, p.capGetType P.cap = .ok c → one id = .ok core →
      ∀ r ∈ regs c k, W core r) : ∀ (l : List Nat) (ret : Except Err (Option Nat)),
    Keeps (Confined p W) (probeWays P id k ret l)
  | [], ret => Keeps.pure Confined.isFrame ret
  | w :: l, ret => by
    refine Keeps.bind Confined.isFrame ((h.set_confined ?_).attempt) fun r => ?_
    · rwa [h.entry_classId]
    · rcases r with e | _
      · exact probeWays_confined h hW l _
      · refine Keeps.bind Confined.isFrame ((h.get_confined W id).attempt) fun r => ?_
        rcases r with e | tab
        · exact Keeps.pure Confined.isFrame _
        · dsimp only
          split_ifs
          · exact Keeps.pure Confined.isFrame _
          · exact probeWays_confined h hW l _

theorem probeClass_confined {W : Nat → Nat → Prop} (h : Benches p rule P regs classes one trim)
    {id k n : Nat} (hW : ∀ c core, p.capGetType P.cap = .ok c → one id = .ok core →
      ∀ r ∈ regs c k, W core r) : Keeps (Confined p W) (probeClass P n id k) := by
  refine Keeps.bind Confined.isFrame (h.get_confined W id) fun config => ?_
  refine Keeps.bind Confined.isFrame (probeWays_confined h hW _ _) fun ret => ?_
  refine Keeps.bind Confined.isFrame (Keeps.forM Confined.isFrame fun e he => ?_) fun _ =>
    Keeps.ofExcept Confined.isFrame _
  obtain ⟨-, hk⟩ := List.mem_filter.1 he
  rw [decide_eq_true_eq] at hk
  exact h.set_confined (hk.symm ▸ hW)

/-- A mask register of a class that no core of some domain uses, reached from a core of it. -/
def Spare (p : Platform) (P : CbmProbe γ α) (regs : γ → Nat → List Nat) (s : Msr)
    (lcore reg : Nat) : Prop :=
  ∃ c id k, p.capGetType P.cap = .ok c
    ∧ (∃ core, InScope p P.technology id core ∧ core.lcore = lcore)
    ∧ (∀ core, InScope p P.technology id core → s.cos core.lcore ≠ k) ∧ reg ∈ regs c k

/-- The ways of the cache that is probed: none if it cannot be divided. -/
def waysOf (p : Platform) (P : CbmProbe γ α) : Nat :=
  ((p.capGetType P.cap).toOption.map P.numWays).getD 0

/-- A probe writes to the registers of spare classes only, leaves every register as it was, and
what it returns with `PQOS_RETVAL_OK` is the least width that the hardware accepts. -/
structure ProbesWell (p : Platform) (rule : MaskRule) (P : CbmProbe γ α)
    (regs : γ → Nat → List Nat) (s : Msr) (probe : EStateM Err Msr (Option Nat)) : Prop where
  spares : Confined p (Spare p P regs s) s (final (probe.run s))
  finds : FindsLeast rule (waysOf p P) s (probe.run s)

theorem FindsLeast.of_error {n : Nat} {r : EStateM.Result Err Msr (Option Nat)} {e : Err}
    (hr : r = .error e t) (ht : t.mem = s.mem) : FindsLeast rule n s r := by
  subst hr
  exact ⟨ht, fun o ho => by cases ho⟩

/-- What is confined to nothing leaves every register as it was. -/
theorem Confined.mem (h : ∀ W, Confined p W s t) : t.mem = s.mem :=
  funext fun l => (h fun _ _ => False).frame l fun _ _ hW => hW.elim

/-- A probe is that of a class, or ends before it writes. -/
theorem getMinCbmBits_spec (hp : p.Reliable) (P : CbmProbe γ α) (s : Msr) :
    (∃ c id k t, p.capGetType P.cap = .ok c ∧ FirstFree p P.technology P.ids.length s id k
        ∧ (∀ W, Confined p W s t)
        ∧ (getMinCbmBits p P).run s = (probeClass P (P.numWays c) id k).run t)
      ∨ (∃ e t, (getMinCbmBits p P).run s = .error e t ∧ ∀ W, Confined p W s t)
        ∧ ∀ c id k, p.capGetType P.cap = .ok c →
          ¬ FirstFree p P.technology P.ids.length s id k := by
  have hsame : ∀ W, Confined p W s s := fun _ => Confined.isFrame.refl s
  unfold getMinCbmBits
  rcases hcap : p.capGetType P.cap with e | c
  · exact Or.inr ⟨⟨_, s, rfl, hsame⟩, fun c id k hc => by cases hc⟩
  dsimp only
  rw [failIf_bind_run]
  by_cases hids : P.ids = []
  · rw [if_pos hids]
    refine Or.inr ⟨⟨_, s, rfl, hsame⟩, fun c id k _ hfirst => ?_⟩
    have hlt := hfirst.id_lt
    rw [hids] at hlt
    exact absurd hlt (Nat.not_lt_zero id)
  rw [if_neg hids]
  have hsearch := fun W =>
    findFreeCos_confined (p := p) W P.technology (List.range P.ids.length) s
  rcases findFreeCos_range hp P.technology P.ids.length s with
    ⟨id, k, t, hsite, -, hfirst⟩ | ⟨⟨e, t, hsite, -⟩, hnone⟩
  · rw [hsite] at hsearch
    exact Or.inl ⟨c, id, k, t, rfl, hfirst, hsearch, bind_of_ok hsite⟩
  · rw [hsite] at hsearch
    exact Or.inr ⟨⟨e, t, bind_of_error hsite, hsearch⟩, fun c id k _ => hnone id k⟩

theorem Benches.spares (hp : p.Reliable) (h : Benches p rule P regs classes one trim) (s : Msr) :
    Confined p (Spare p P regs s) s (final ((getMinCbmBits p P).run s)) := by
  rcases getMinCbmBits_spec hp P s with ⟨c, id, k, t, -, hfirst, ht, hrun⟩ | ⟨⟨e, t, hrun, ht⟩, -⟩
  · rw [hrun]
    refine Confined.isFrame.trans (ht _)
      (probeClass_confined h (fun c' core hc' hcore r hr => ?_) t)
    exact ⟨c', id, k, hc', h.picks hcore, hfirst.free.2, hr⟩
  · rw [hrun]
    exact ht _

/-- A class of more than 16, or of no domain, is not written to. -/
theorem Benches.probeClass_fails (h : Benches p rule P regs classes one trim) {c : γ} {n id : Nat}
    (hcap : p.capGetType P.cap = .ok c) (hone : ¬ (classes c ≤ 16 ∧ ∃ core, one id = .ok core))
    (k : Nat) (t : Msr) : ∃ e u, (probeClass P n id k).run t = .error e u ∧ u.mem = t.mem := by
  have hmem := Confined.mem fun W => h.get_confined W id t
  unfold probeClass
  rcases hr : (P.get id).run t with ⟨tab, u⟩ | ⟨e, u⟩ <;> rw [hr] at hmem
  · obtain ⟨c', core, hc', h16, hcore⟩ := h.get_ok hr
    rw [hcap] at hc'
    cases hc'
    exact absurd ⟨h16, core, hcore⟩ hone
  · exact ⟨e, u, by rw [bind_of_error hr], hmem⟩

theorem Benches.finds_iff (hp : p.Reliable) (h : Benches p rule P regs classes one trim) (s : Msr) :
    FindsLeast rule (waysOf p P) s ((getMinCbmBits p P).run s)
      ↔ ∀ c id k core, p.capGetType P.cap = .ok c →
        FirstFree p P.technology P.ids.length s id k → one id = .ok core → classes c ≤ 16 →
          rule.Meets (P.numWays c) (regs c k) (s.read p.cpu core)
            fun r => trim (s.read p.cpu core r) := by
  rcases getMinCbmBits_spec hp P s with
    ⟨c, id, k, t, hcap, hfirst, ht, hrun⟩ | ⟨⟨e, t, hrun, ht⟩, hnone⟩
  · have hmem := Confined.mem ht
    have honly : ∀ c' id' k', p.capGetType P.cap = .ok c' →
        FirstFree p P.technology P.ids.length s id' k' → c' = c ∧ id' = id ∧ k' = k := by
      intro c' id' k' hc' hfirst'
      rw [hcap] at hc'
      cases hc'
      exact ⟨rfl, hfirst'.unique hfirst⟩
    rw [hrun, waysOf, hcap]
    by_cases hone : classes c ≤ 16 ∧ ∃ core, one id = .ok core
    · obtain ⟨h16, core, hcore⟩ := hone
      obtain ⟨⟨hi, hhi, -, hle⟩, -⟩ := hfirst.free
      have hk : k < classes c := h.below hcap (getHiCosId_below hhi hle).1
      refine ((h.bench hcap hk h16 hcore).findsLeast_iff hp hmem).trans ⟨fun hmeets => ?_, ?_⟩
      · intro c' id' k' core' hc' hfirst' hcore' _
        obtain ⟨rfl, rfl, rfl⟩ := honly c' id' k' (hcap.trans hc') hfirst'
        rw [hcore] at hcore'
        cases hcore'
        exact hmeets
      · exact fun hall => hall c id k core rfl hfirst hcore h16
    · obtain ⟨e, u, hr, hu⟩ := h.probeClass_fails (n := P.numWays c) hcap hone k t
      rw [hr]
      refine iff_of_true (FindsLeast.of_error rfl (hu.trans hmem)) ?_
      intro c' id' k' core hc' hfirst' hcore h16
      obtain ⟨rfl, rfl, rfl⟩ := honly c' id' k' (hcap.trans hc') hfirst'
      exact absurd ⟨h16, core, hcore⟩ hone
  · rw [hrun]
    exact iff_of_true (FindsLeast.of_error rfl (Confined.mem ht)) fun c id k core hcap hfirst =>
      absurd hfirst (hnone c id k hcap)

end Benches

/-! ## The technologies -/

section Technologies

variable {rule : MaskRule}

/-- The registers of an L3 class. -/
def l3MaskRegs (c : CapL3ca) (k : Nat) : List Nat :=
  if c.cdpOn then [l3caReg true k, (l3caReg true k + 1) % 2 ^ 32] else [l3caReg false k]

def l2MaskRegs (_c : CapL2ca) (k : Nat) : List Nat := [l2caReg k]

/-- The L2 getter keeps 32 bits of a register, and they are what is written back. -/
def lowWord (v : Word) : Word := (v.setWidth 32).setWidth 64

theorem lowWord_probeMask (w : Nat) : lowWord (probeMask w) = probeMask w := by
  have h : ∀ w < 32, lowWord (probeMask w) = probeMask w := by decide
  rw [← probeMask_mod, h _ (Nat.mod_lt w (by decide))]

theorem filter_range_map {α : Type} {f : Nat → α} {g : α → Nat} (hg : ∀ k, g (f k) = k) {n k : Nat}
    (hk : k < n) : ((List.range n).map f).filter (fun a => g a = k) = [f k] := by
  have hone : (List.range n).filter (fun j => j == k) = [k] := by
    rw [List.filter_beq, List.count_eq_one_of_mem List.nodup_range (List.mem_range.2 hk)]
    rfl
  rw [List.filter_map, ← List.map_singleton, ← hone]
  congr 1
  refine List.filter_congr fun j _ => ?_
  simp only [Function.comp_apply, hg, beq_eq_decide]

theorem hwL3caGet_confined (W : Nat → Nat → Prop) (socket : Nat) :
    Keeps (Confined p W) (hwL3caGet p socket 16) := by
  refine keeps_ofExcept_bind Confined.isFrame fun n _ => ?_
  refine keeps_ofExcept_bind Confined.isFrame fun cdpOn _ => ?_
  refine keeps_failIf_bind Confined.isFrame fun _ => ?_
  refine keeps_ofExcept_bind Confined.isFrame fun core _ => ?_
  refine Keeps.mapM Confined.isFrame fun k _ => ?_
  unfold l3caRead
  split_ifs
  · exact Keeps.bind Confined.isFrame msrRead_confined fun _ =>
      Keeps.bind Confined.isFrame msrRead_confined fun _ => Keeps.pure Confined.isFrame _
  · exact Keeps.bind Confined.isFrame msrRead_confined fun _ => Keeps.pure Confined.isFrame _

section L3

variable {c : CapL3ca} {socket core k : Nat} (hc : p.capGetType CapItem.l3ca? = .ok c)
include hc

theorem hwL3caSetBy_one {write : Nat → Nat → Word → EStateM Err Msr Unit}
    (hcore : p.cpu.getOneCore socket = .ok core) (hpos : 0 < c.numClasses) (e : L3ca) (s : Msr) :
    (hwL3caSetBy p write socket [e]).run s = (l3caWriteBy write c.cdpOn core e).run s := by
  unfold hwL3caSetBy
  rw [bind_of_ok (ofExcept_ok.2 ⟨l3caGetCosNum_ok.2 ⟨c, hc, rfl⟩, rfl⟩), failIf_bind_run,
    if_neg (by simp; omega), bind_of_ok (ofExcept_ok.2 ⟨l3caCdpEnabled_ok.2 ⟨c, hc, rfl⟩, rfl⟩),
    bind_of_ok (ofExcept_ok.2 ⟨hcore, rfl⟩), forM_one]

theorem l3Bench (hk : k < c.numClasses) (h16 : c.numClasses ≤ 16)
    (hcore : p.cpu.getOneCore socket = .ok core) (hp : p.Reliable) :
    Bench p rule (l3Probe p rule) socket k core (l3MaskRegs c k) id where
  known := CpuInfo.getOneCore_mem hcore
  nonempty := by
    unfold l3MaskRegs
    split_ifs <;> simp
  trim_probe _ := rfl
  whole := Or.inl fun _ => rfl
  set w s := by
    refine (hwL3caSetBy_one hc hcore (by omega) _ s).trans ?_
    unfold l3caWriteBy l3MaskRegs
    split_ifs
    · rw [forM_two]
      rfl
    · rw [forM_one]
      rfl
  get s := by
    obtain ⟨tab, t, hrun⟩ := hwL3caGet_run hp hc hcore h16 s
    have hmem := Confined.mem (p := p) fun W => hwL3caGet_confined W socket s
    rw [hrun, final_ok] at hmem
    obtain ⟨c', core', hc', hcore', rfl⟩ := hwL3caGet_ok hrun
    rw [hc] at hc'
    cases hc'
    rw [hcore] at hcore'
    cases hcore'
    refine ⟨_, t, hrun, hmem, l3View p c.cdpOn core s k,
      filter_range_map (fun _ => rfl) hk, fun w => ?_, fun u => ?_⟩
    · simp only [l3Probe, L3ca.shows, l3View, l3MaskRegs]
      rcases c.cdpOn with _ | _ <;> simp
    · refine (hwL3caSetBy_one hc hcore (by omega) _ u).trans ?_
      unfold l3caWriteBy l3MaskRegs l3View
      split_ifs
      · rw [forM_two]
        rfl
      · rw [forM_one]
        rfl

end L3

theorem l3Benches (hp : p.Reliable) (rule : MaskRule) :
    Benches p rule (l3Probe p rule) l3MaskRegs CapL3ca.numClasses p.cpu.getOneCore id where
  below {c k} hc hbelow := by
    obtain ⟨n, hn, hk⟩ := hbelow.l3 (show l3Req 2 by decide)
    obtain ⟨c', hc', rfl⟩ := l3caGetCosNum_ok.1 hn
    cases hc.symm.trans hc'
    exact hk
  picks h := by
    obtain ⟨c, hc, hcore, hsocket⟩ := CpuInfo.getOneCore_ok h
    exact ⟨c, (inScope_socket (show ¬ l2Req 2 by decide)).2 ⟨hc, hsocket⟩, hcore⟩
  bench hc hk h16 hcore := l3Bench hc hk h16 hcore hp
  get_ok {id s tab t} h := by
    obtain ⟨c, core, hc, hcore, -⟩ := hwL3caGet_ok h
    exact ⟨c, core, hc, hwL3caGet_fits hc h, hcore⟩
  get_confined W id := hwL3caGet_confined W id
  set_confined {W id e} hW := by
    refine keeps_ofExcept_bind Confined.isFrame fun n _ => ?_
    refine keeps_failIf_bind Confined.isFrame fun _ => ?_
    refine keeps_ofExcept_bind Confined.isFrame fun cdpOn hcdp => ?_
    refine keeps_ofExcept_bind Confined.isFrame fun core hcore => ?_
    obtain ⟨c, hc, rfl⟩ := l3caCdpEnabled_ok.1 hcdp
    have hregs : ∀ r ∈ l3MaskRegs c e.classId, W core r := hW c core hc hcore
    rw [forM_one]
    unfold l3caWriteBy
    unfold l3MaskRegs at hregs
    split_ifs at hregs ⊢
    · exact Keeps.bind Confined.isFrame (maskWrite_confined (hregs _ (by simp))) fun _ =>
        maskWrite_confined (hregs _ (by simp))
    · split
      · exact Keeps.throw Confined.isFrame _
      · exact maskWrite_confined (hregs _ (by simp))
  entry_classId _ _ := rfl

theorem hwL2caGet_confined (W : Nat → Nat → Prop) (l2id : Nat) :
    Keeps (Confined p W) (hwL2caGet p l2id 16) := by
  refine keeps_ofExcept_bind Confined.isFrame fun n _ => ?_
  refine keeps_failIf_bind Confined.isFrame fun _ => ?_
  refine keeps_ofExcept_bind Confined.isFrame fun core _ => ?_
  refine Keeps.mapM Confined.isFrame fun k _ => ?_
  exact Keeps.bind Confined.isFrame msrRead_confined fun _ => Keeps.pure Confined.isFrame _

section L2

variable {c : CapL2ca} {l2id core k : Nat} (hc : p.capGetType CapItem.l2ca? = .ok c)
include hc

theorem hwL2caSetBy_one {write : Nat → Nat → Word → EStateM Err Msr Unit}
    (hcore : p.cpu.getOneByL2id l2id = .ok core) {e : L2ca} (he : e.classId < c.numClasses)
    (s : Msr) :
    (hwL2caSetBy p write l2id [e]).run s
      = (write core (l2caReg e.classId) (e.waysMask.setWidth 64)).run s := by
  unfold hwL2caSetBy
  rw [bind_of_ok (ofExcept_ok.2 ⟨l2caGetCosNum_ok.2 ⟨c, hc, rfl⟩, rfl⟩), failIf_bind_run,
    if_neg (by simpa using he), bind_of_ok (ofExcept_ok.2 ⟨hcore, rfl⟩), forM_one]

theorem l2Bench (hk : k < c.numClasses) (h16 : c.numClasses ≤ 16)
    (hcore : p.cpu.getOneByL2id l2id = .ok core) (hp : p.Reliable) :
    Bench p rule (l2Probe p rule) l2id k core (l2MaskRegs c k) lowWord where
  known := CpuInfo.getOneByL2id_mem hcore
  nonempty := List.cons_ne_nil _ _
  trim_probe := lowWord_probeMask
  whole := Or.inr ⟨_, rfl⟩
  set w s := by
    refine (hwL2caSetBy_one hc hcore hk s).trans ?_
    rw [l2MaskRegs, forM_one]
    exact congrArg (fun v => (maskWrite p rule core (l2caReg k) v).run s) (lowWord_probeMask w)
  get s := by
    obtain ⟨tab, t, hrun⟩ := hwL2caGet_run hp hc hcore h16 s
    have hmem := Confined.mem (p := p) fun W => hwL2caGet_confined W l2id s
    rw [hrun, final_ok] at hmem
    obtain ⟨c', core', hc', hcore', rfl⟩ := hwL2caGet_ok hrun
    rw [hc] at hc'
    cases hc'
    rw [hcore] at hcore'
    cases hcore'
    refine ⟨_, t, hrun, hmem, l2View p core s k, filter_range_map (fun _ => rfl) hk, fun w => ?_,
      fun u => ?_⟩
    · simp [l2Probe, l2View, l2MaskRegs, lowWord]
    · refine (hwL2caSetBy_one hc hcore hk u).trans ?_
      rw [l2MaskRegs, forM_one]
      rfl

end L2

theorem l2Benches (hp : p.Reliable) (rule : MaskRule) :
    Benches p rule (l2Probe p rule) l2MaskRegs CapL2ca.numClasses p.cpu.getOneByL2id lowWord where
  below {c k} hc hbelow := by
    obtain ⟨n, hn, hk⟩ := hbelow.l2 (show l2Req 4 by decide)
    obtain ⟨c', hc', rfl⟩ := l2caGetCosNum_ok.1 hn
    cases hc.symm.trans hc'
    exact hk
  picks h := by
    obtain ⟨c, hc, hcore, hl2id⟩ := CpuInfo.getOneByL2id_ok h
    exact ⟨c, (inScope_l2 (show l2Req 4 by decide)).2 ⟨hc, hl2id⟩, hcore⟩
  bench hc hk h16 hcore := l2Bench hc hk h16 hcore hp
  get_ok {id s tab t} h := by
    obtain ⟨c, core, hc, hcore, -⟩ := hwL2caGet_ok h
    replace h : (hwL2caGet p id 16).run s = .ok tab t := h
    unfold hwL2caGet at h
    simp only [bind_ok, ofExcept_ok, failIf_ok] at h
    obtain ⟨n, _, ⟨hn, rfl⟩, _, _, ⟨h16, -⟩, -⟩ := h
    obtain ⟨c', hc', rfl⟩ := l2caGetCosNum_ok.1 hn
    cases hc.symm.trans hc'
    exact ⟨c, core, hc, Nat.not_lt.1 h16, hcore⟩
  get_confined W id := hwL2caGet_confined W id
  set_confined {W id e} hW := by
    refine keeps_ofExcept_bind Confined.isFrame fun n hn => ?_
    refine keeps_failIf_bind Confined.isFrame fun _ => ?_
    refine keeps_ofExcept_bind Confined.isFrame fun core hcore => ?_
    obtain ⟨c, hc, -⟩ := l2caGetCosNum_ok.1 hn
    rw [forM_one]
    exact maskWrite_confined (hW c core hc hcore _ List.mem_cons_self)
  entry_classId _ _ := rfl

/-- Where there is a class to probe, its registers and what the hardware takes fit together. -/
def L3Meets (p : Platform) (rule : MaskRule) (s : Msr) : Prop :=
  ∀ c id k core, p.capGetType CapItem.l3ca? = .ok c →
    FirstFree p 2 p.cpu.getSockets.length s id k → p.cpu.getOneCore id = .ok core →
      c.numClasses ≤ 16 →
        rule.Meets c.numWays (l3MaskRegs c k) (s.read p.cpu core) (s.read p.cpu core)

def L2Meets (p : Platform) (rule : MaskRule) (s : Msr) : Prop :=
  ∀ c id k core, p.capGetType CapItem.l2ca? = .ok c →
    FirstFree p 4 p.cpu.getL2ids.length s id k → p.cpu.getOneByL2id id = .ok core →
      c.numClasses ≤ 16 →
        rule.Meets c.numWays (l2MaskRegs c k) (s.read p.cpu core)
          fun r => lowWord (s.read p.cpu core r)

theorem minCbmBits_iff (hp : p.Reliable) (rule : MaskRule) (s : Msr) :
    (ProbesWell p rule (l3Probe p rule) l3MaskRegs s (hwL3caGetMinCbmBits p rule)
        ↔ L3Meets p rule s)
      ∧ (ProbesWell p rule (l2Probe p rule) l2MaskRegs s (hwL2caGetMinCbmBits p rule)
        ↔ L2Meets p rule s) := by
  have h3 := l3Benches hp rule
  have h2 := l2Benches hp rule
  constructor
  · exact ⟨fun h => (h3.finds_iff hp s).1 h.finds,
      fun h => ⟨h3.spares hp s, (h3.finds_iff hp s).2 h⟩⟩
  · exact ⟨fun h => (h2.finds_iff hp s).1 h.finds,
      fun h => ⟨h2.spares hp s, (h2.finds_iff hp s).2 h⟩⟩

/-- The hardware takes masks with the two lowest ways and fails other writes. -/
def twoLowWays : MaskRule := ⟨fun v => v &&& 3#64 == 3#64, by decide, true⟩

/-- Both caches have four classes and 11 ways. -/
def probePlatform : Platform :=
  smallPlatform [⟨true, .l3ca ⟨4, 11, 0, false, false⟩⟩, ⟨true, .l2ca ⟨4, 11, 0⟩⟩]

/-- Every register holds the mask of 11 ways. -/
def fullMasks : Msr := ⟨fun _ => 0x7ff#64, []⟩

theorem minCbmBits_small :
    ProbesWell probePlatform twoLowWays (l3Probe probePlatform twoLowWays) l3MaskRegs fullMasks
        (hwL3caGetMinCbmBits probePlatform twoLowWays)
      ∧ ProbesWell probePlatform twoLowWays (l2Probe probePlatform twoLowWays) l2MaskRegs fullMasks
        (hwL2caGetMinCbmBits probePlatform twoLowWays) := by
  have h := minCbmBits_iff (smallPlatform_reliable _ : probePlatform.Reliable) twoLowWays fullMasks
  refine ⟨h.1.2 fun c id k core hc _ _ _ => ?_, h.2.2 fun c id k core hc _ _ _ => ?_⟩
  · cases hc
    exact Or.inl ⟨⟨2, by decide⟩, fun r _ => ⟨show twoLowWays.takes 0x7ff#64 = true by decide, rfl⟩⟩
  · cases hc
    exact Or.inl ⟨⟨2, by decide⟩, fun r _ =>
      ⟨show twoLowWays.takes (lowWord 0x7ff#64) = true by decide, rfl⟩⟩

/-- The hardware drops every mask that is written. -/
def dropsAll : MaskRule := ⟨fun _ => false, rfl, false⟩

/-- Where no width is accepted and the writes are dropped, `PQOS_RETVAL_OK` is returned with the
output unset. -/
theorem not_probesWell :
    ¬ ProbesWell probePlatform dropsAll (l3Probe probePlatform dropsAll) l3MaskRegs ⟨fun _ => 0, []⟩
      (hwL3caGetMinCbmBits probePlatform dropsAll) := by
  intro h
  have hrun : outcome ((hwL3caGetMinCbmBits probePlatform dropsAll).run ⟨fun _ => 0, []⟩)
      = .ok none := rfl
  obtain ⟨w, hw, -⟩ := h.finds.least none hrun
  cases hw

end Technologies

end Pqos
