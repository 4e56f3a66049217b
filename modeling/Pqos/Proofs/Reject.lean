import Pqos.Proofs.Banks

/-!
# Rejected requests

The L2 and MBA setters check their whole table before they write any of it, and so does the L3
setter while CDP is on. With CDP off the L3 setter finds a code and data pair only when it gets to
it, and by then the entries before it are written.
-/

namespace Pqos

open Prog Table

variable {p : Platform}

/-! ## L2 and MBA -/

section L2Mba

variable (hp : p.Reliable)
include hp

theorem pqosL2caSet_atomic (l2id : Nat) (ca : List L2ca) :
    Atomic (pqosL2caSet (hwBackend p) l2id ca) := by
  refine atomic_failIf_bind fun _ => atomic_failIf_bind fun _ => atomic_failIf_bind fun _ => ?_
  refine atomic_ofExcept_bind fun n _ => atomic_failIf_bind fun _ => ?_
  refine atomic_ofExcept_bind fun core hcore => (Total.forM fun e _ s => ?_).atomic
  exact ⟨_, _, msrWrite_run hp (CpuInfo.getOneByL2id_mem hcore)⟩

theorem pqosMbaSet_atomic (socket : Nat) (requested : List Mba) (wantActual : Bool) :
    Atomic (pqosMbaSet (hwBackend p) socket requested wantActual) := by
  refine atomic_failIf_bind fun _ => atomic_failIf_bind fun _ => atomic_failIf_bind fun _ => ?_
  refine atomic_ofExcept_bind fun c _ => atomic_failIf_bind fun _ => atomic_failIf_bind fun _ => ?_
  refine atomic_ofExcept_bind fun core hcore => ?_
  have hl := CpuInfo.getOneCore_mem hcore
  have hwrite : ∀ r ∈ requested, Total (mbaWrite p c core r) := fun r _ s =>
    ⟨_, _, msrWrite_run hp hl⟩
  split_ifs
  · refine (Total.map (Total.mapM fun r hr => ?_)).atomic
    exact Total.bind (hwrite r hr) fun _ =>
      Total.bind (fun s => ⟨_, _, msrRead_run hp hl⟩) fun _ => Total.pure _
  · exact (Total.bind (Total.forM hwrite) fun _ => Total.pure _).atomic

end L2Mba

/-! ## L3 -/

/-- With CDP off the interface accepts the table, the setter gets to a code and data pair, and the
entries before it change a register. -/
def L3PartWritten (p : Platform) (socket : Nat) (ca : List L3ca) (s : Msr) : Prop :=
  p.initDone = true ∧ (∀ e ∈ ca, e.u.isContiguous = true) ∧ (∃ e ∈ ca, e.cdp = true)
    ∧ ∃ c core, L3Ready p socket ca c core ∧ c.cdpOn = false ∧ ∃ reg e,
      lastNamed (fun e => l3caReg false e.classId) reg (ca.takeWhile fun e => !e.cdp) = some e
      ∧ e.u.dataMask ≠ s.read p.cpu core reg

section L3

variable {socket core : Nat} {ca pre post : List L3ca} {c : CapL3ca} {a : L3ca} {s t : Msr}

theorem pqosL3caSet_run (hinit : p.initDone = true) (hne : ca ≠ [])
    (hcont : ∀ e ∈ ca, e.u.isContiguous = true) (s : Msr) :
    (pqosL3caSet (hwBackend p) socket ca).run s = (hwL3caSet p socket ca).run s := by
  have hmask : ¬ ∃ e ∈ ca, e.u.isContiguous = false := by
    rintro ⟨e, he, hf⟩
    rw [hcont e he] at hf
    cases hf
  unfold pqosL3caSet checkInit
  rw [bind_of_ok (a := ()) (failIf_ok.2 ⟨hne, rfl⟩),
    bind_of_ok (a := ()) (failIf_ok.2 ⟨by simp [hwBackend, hinit], rfl⟩),
    bind_of_ok (a := ()) (failIf_ok.2 ⟨hmask, rfl⟩)]
  rfl

/-- A call that fails either leaves no trace or fails in the loop of an accepted table. -/
theorem pqosL3caSet_error {e : Err}
    (h : (pqosL3caSet (hwBackend p) socket ca).run s = .error e t) :
    t = s ∨ (p.initDone = true ∧ (∀ e ∈ ca, e.u.isContiguous = true) ∧ ∃ c core,
      L3Ready p socket ca c core ∧ (ca.forM (l3caWrite p c.cdpOn core)).run s = .error e t) := by
  unfold pqosL3caSet checkInit at h
  simp only [bind_error, failIf_error, failIf_ok] at h
  rcases h with ⟨-, -, rfl⟩ | ⟨_, _, ⟨-, rfl⟩, ⟨-, -, rfl⟩ | ⟨_, _, ⟨hinit, rfl⟩,
    ⟨-, -, rfl⟩ | ⟨_, _, ⟨hmask, rfl⟩, h⟩⟩⟩
  · exact Or.inl rfl
  · exact Or.inl rfl
  · exact Or.inl rfl
  · rcases l3Ready_or_rejects p socket ca with ⟨c, core, hready⟩ | ⟨e', hrej⟩
    · refine Or.inr ⟨by simpa [hwBackend] using hinit, fun e he => ?_, c, core, hready, ?_⟩
      · by_contra hf
        exact hmask ⟨e, he, by simpa using hf⟩
      · rw [← hready.run]
        exact h
    · have h' : (hwL3caSet p socket ca).run _ = .error e t := h
      rw [hrej] at h'
      cases h'
      exact Or.inl rfl

/-- With CDP off the loop writes the entries before the first pair and fails at the pair. -/
theorem l3Loop_stops (post : List L3ca) (hp : p.Reliable) (hl : core ∈ p.cpu.lcores)
    (hpre : ∀ e ∈ pre, e.cdp = false) (ha : a.cdp = true) (s : Msr) :
    ∃ t, ((pre ++ a :: post).forM (l3caWrite p false core)).run s = .error .error t
      ∧ Stores p core (fun r => (pre.filterMap (l3caPuts false · r)).getLast?) s t := by
  obtain ⟨_, t, ht⟩ := Total.forM (fun e he => l3caWrite_total hp hl (Or.inr (hpre e he))) s
  refine ⟨t, ?_, Stores.forM (fun e _ s t h => (l3caWrite_stores h).1) ht⟩
  rw [forM_append_ok ht, List.forM_eq_forM, List.forM_cons]
  rw [l3caWrite_throw ha]
  rfl

/-- The entries before the first pair of a table that has one. -/
theorem takeWhile_noCdp (h : ∃ e ∈ ca, e.cdp = true) :
    ∃ pre a post, ca = pre ++ a :: post ∧ (∀ e ∈ pre, e.cdp = false) ∧ a.cdp = true
      ∧ ca.takeWhile (fun e => !e.cdp) = pre := by
  obtain ⟨e, he, hcdp⟩ := h
  rcases hd : ca.dropWhile fun e => !e.cdp with _ | ⟨a, post⟩
  · rw [List.dropWhile_eq_nil_iff] at hd
    simpa [hcdp] using hd e he
  · refine ⟨ca.takeWhile fun e => !e.cdp, a, post, ?_, fun b hb => ?_, ?_, rfl⟩
    · rw [← hd, List.takeWhile_append_dropWhile]
    · simpa using List.mem_takeWhile_imp hb
    · have := List.head?_dropWhile_not (fun e : L3ca => !e.cdp) ca
      simpa [hd] using this

theorem getLast?_l3caPuts (r : Nat) :
    (ca.filterMap (l3caPuts false · r)).getLast?
      = (lastNamed (fun e => l3caReg false e.classId) r ca).map fun e => e.u.dataMask :=
  getLast?_filterMap _ r _ fun e _ => by simp [l3caPuts, eq_comm]

/-- A rejected L3 call leaves the registers as they were exactly when it did not stop at a pair
after entries that changed one. -/
theorem pqosL3caSet_unchanged (hp : p.Reliable) :
    (∀ e t, (pqosL3caSet (hwBackend p) socket ca).run s = .error e t → t.mem = s.mem)
      ↔ ¬ L3PartWritten p socket ca s := by
  constructor
  · rintro h ⟨hinit, hcont, hcdp, c, core, hready, hoff, reg, e, hlast, hne⟩
    obtain ⟨pre, a, post, rfl, hpre, ha, htake⟩ := takeWhile_noCdp hcdp
    obtain ⟨t, hrun, hstores⟩ := l3Loop_stops post hp
      (CpuInfo.getOneCore_mem hready.core) hpre ha s
    have hmem := h .error t (by
      rw [pqosL3caSet_run hinit (by simp) hcont, hready.run, hoff, hrun])
    have hread := hstores.read reg
    rw [getLast?_l3caPuts, ← htake, hlast] at hread
    refine hne (Eq.trans ?_ (congrFun hmem _))
    exact hread.symm
  · intro hpart e t h
    rcases pqosL3caSet_error h with rfl | ⟨hinit, hcont, c, core, hready, hloop⟩
    · rfl
    have hl := CpuInfo.getOneCore_mem hready.core
    by_cases hall : ∀ e ∈ ca, c.cdpOn = true ∨ e.cdp = false
    · exact absurd hloop (Total.forM fun e he => l3caWrite_total hp hl (hall e he)).not_error
    push Not at hall
    obtain ⟨e', he', hon, hcdp⟩ := hall
    have hoff : c.cdpOn = false := by simpa using hon
    have hex : ∃ e ∈ ca, e.cdp = true := ⟨e', he', by simpa using hcdp⟩
    obtain ⟨pre, a, post, rfl, hpre, ha, htake⟩ := takeWhile_noCdp hex
    obtain ⟨t', hrun, hstores⟩ := l3Loop_stops post hp hl hpre ha s
    rw [hoff, hrun] at hloop
    cases hloop
    funext l
    by_cases hloc : ∃ r v, (pre.filterMap (l3caPuts false · r)).getLast? = some v
        ∧ l = p.cpu.loc core r
    · obtain ⟨r, v, hv, rfl⟩ := hloc
      have hread := hstores.read r
      rw [hv, Option.getD_some] at hread
      rw [getLast?_l3caPuts, Option.map_eq_some_iff] at hv
      obtain ⟨e, hlast, rfl⟩ := hv
      by_contra hne
      refine hpart ⟨hinit, hcont, hex, c, core, hready, hoff, r, e, by rw [htake, hlast], ?_⟩
      rw [← hread]
      exact hne
    · exact hstores.frame l fun r v hv he => hloc ⟨r, v, hv, he⟩

end L3

/-! ## All three calls -/

theorem pqosSet_unchanged (hp : p.Reliable) :
    (∀ socket ca s, (∀ e t, (pqosL3caSet (hwBackend p) socket ca).run s = .error e t →
        t.mem = s.mem) ↔ ¬ L3PartWritten p socket ca s)
    ∧ (∀ l2id ca s e t, (pqosL2caSet (hwBackend p) l2id ca).run s = .error e t → t.mem = s.mem)
    ∧ ∀ socket requested wantActual s e t,
      (pqosMbaSet (hwBackend p) socket requested wantActual).run s = .error e t →
        t.mem = s.mem := by
  refine ⟨fun socket ca s => pqosL3caSet_unchanged hp, fun l2id ca s e t h => ?_,
    fun socket requested wantActual s e t h => ?_⟩
  · rw [pqosL2caSet_atomic hp l2id ca s e t h]
  · rw [pqosMbaSet_atomic hp socket requested wantActual s e t h]

theorem pqosSet_unchanged_small :
    (∀ socket ca s, (∀ e t, (pqosL3caSet (hwBackend bankPlatform) socket ca).run s = .error e t →
        t.mem = s.mem) ↔ ¬ L3PartWritten bankPlatform socket ca s)
    ∧ (∀ l2id ca s e t,
      (pqosL2caSet (hwBackend bankPlatform) l2id ca).run s = .error e t → t.mem = s.mem)
    ∧ ∀ socket requested wantActual s e t,
      (pqosMbaSet (hwBackend bankPlatform) socket requested wantActual).run s = .error e t →
        t.mem = s.mem :=
  pqosSet_unchanged (smallPlatform_reliable _)

/-- Class 1 is written before the pair for class 2 is refused. -/
theorem pqosL3caSet_changed : ¬ ∀ s e t,
    (pqosL3caSet (hwBackend bankPlatform) 0 [⟨1, .ways 3⟩, ⟨2, .s 1 1⟩]).run s = .error e t →
      t.mem = s.mem := by
  intro h
  have hmem := h ⟨fun _ => 0, []⟩ .error _ rfl
  have hne : (3 : Word) = 0 := congrFun hmem (.socket 0 0xC91)
  exact absurd hne (by decide)

end Pqos
