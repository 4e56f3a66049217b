import Pqos.Proofs.Contract
import Pqos.Proofs.OsFreeClass
import Pqos.Proofs.SchemataFrame
import Pqos.Proofs.Store

/-!
# The resctrl files as a store

In a kernel whose files mean what the library takes them to mean, the classes of the store are what
the schemata files list, and the classes of cores and tasks are where the `cpus` and `tasks` files
have them. Sockets and L2 clusters are named by their position in the topology's lists. The library
asks for rates that the kernel keeps as they are.
-/

namespace Pqos

open CText Prog Refine Schemata

variable {κ : Type} (p : Platform) (fs : Resctrl κ)

/-! ## The kernel -/

/-- A kernel with `n` classes: `alloc` is what each has, `cpuClass` and `taskClass` where the CPUs
and the tasks are. An accepted schemata text is what its class has from then on. A `tasks` file has
a line for each task of the class. No task comes or goes. -/
structure GroupKernel (alloc : κ → Nat → Schemata) (cpuClass : κ → Nat → Option Nat)
    (taskClass : κ → Nat → Nat) (n : Nat) : Prop extends GroupFiles fs cpuClass taskClass where
  schemataKernel : SchemataKernel p fs alloc n
  grps : p.getGrpsNum = .ok n
  step_le : ∀ c, p.capGetType CapItem.mba? = .ok c → c.throttleStep ≤ 100
  online : ∀ k lcore, lcore ∈ p.cpu.lcores ↔ (cpuClass k lcore).isSome
  settled : ∀ k classId, classId < n → (alloc k classId).Settled p
  absent : ∀ {classId}, n ≤ classId → ∀ file k, ∃ k', (fs.read classId file).run k = .error () k'
  reads_alloc : ∀ classId file,
    Keeps (fun k k' => alloc k' = alloc k ∧ fs.taskExists k' = fs.taskExists k)
      (fs.read classId file)
  writes_exist : ∀ classId file text,
    Keeps (fun k k' => fs.taskExists k' = fs.taskExists k) (fs.write classId file text)
  writes_alloc : ∀ classId file text, file ≠ .schemata →
    Keeps (fun k k' => alloc k' = alloc k) (fs.write classId file text)
  refused_alloc : ∀ {classId file text k u k'}, (fs.write classId file text).run k = .error u k' →
    alloc k' = alloc k
  schemata_write : ∀ {k classId text s u k'}, classId < n → Lists p.cdpOn text s →
    HasEntries p classId s → s.Settled p → (fs.write classId .schemata text).run k = .ok u k' →
    alloc k' = Function.update (alloc k) classId s
  tasks_read : ∀ {k classId text k'}, (fs.read classId .tasks).run k = .ok text k' →
    ∃ l : List Nat, text = (l.map fun task => Nat.toDigits 10 task ++ ['\n']).flatten
      ∧ ∀ task, task ∈ l ↔ fs.taskExists k task = true ∧ taskClass k task = classId
  task_lt : ∀ {k task}, fs.taskExists k task = true → task < 2 ^ 31

/-! ## The view -/

def osRules : StoreRules where
  cdpOn := p.cdpOn
  rate r :=
    match p.capGetType CapItem.mba? with
    | .ok c => osMbaRate c.throttleStep r
    | .error _ => r
  near _ _ _ := True

/-- What the entry at position `x.1` of class `x.2` is, if there are both. -/
def entryOf {α β : Type} (n : Nat) (entries : Nat → List α) (val : α → β) (x : Nat × Nat) :
    Option β :=
  if x.2 < n then (entries x.2)[x.1]?.map val else none

def osView (alloc : κ → Nat → Schemata) (cpuClass : κ → Nat → Option Nat)
    (taskClass : κ → Nat → Nat) (n : Nat) (k : κ) : Store where
  cos := cpuClass k
  task t := if fs.taskExists k t = true then some (taskClass k t) else none
  l3 := entryOf n (fun c => (alloc k c).l3ca) L3ca.u
  l2 := entryOf n (fun c => (alloc k c).l2ca) L2ca.waysMask
  mba := entryOf n (fun c => (alloc k c).mba) Mba.mbRate

variable {p fs}

section Entries

variable {α β : Type} {n c i : Nat} (sel : Schemata → List α) (val : α → β) {a : Nat → Schemata}
  {t : Schemata} {x : α}

/-- A class with one entry replaced. -/
theorem entryOf_set (hc : c < n) (hi : i < (sel (a c)).length)
    (hset : sel t = (sel (a c)).set i x) :
    entryOf n (fun d => sel (Function.update a c t d)) val
      = Function.update (entryOf n (fun d => sel (a d)) val) (i, c) (some (val x)) := by
  funext ⟨j, d⟩
  by_cases hx : (j, d) = (i, c)
  · cases hx
    rw [Function.update_self, entryOf, if_pos hc, Function.update_self, hset,
      List.getElem?_set_self hi, Option.map_some]
  · rw [Function.update_of_ne hx, entryOf, entryOf]
    by_cases hd : d = c
    · subst hd
      have hj : i ≠ j := fun hj => hx (by rw [hj])
      rw [Function.update_self, hset, List.getElem?_set_ne hj]
    · rw [Function.update_of_ne hd]

theorem entryOf_same (hsame : sel t = sel (a c)) :
    entryOf n (fun d => sel (Function.update a c t d)) val
      = entryOf n (fun d => sel (a d)) val := by
  have h : (fun d => sel (Function.update a c t d)) = fun d => sel (a d) := by
    funext d
    by_cases hd : d = c
    · rw [hd, Function.update_self, hsame]
    · rw [Function.update_of_ne hd]
  rw [h]

end Entries

/-! ## Accesses that change nothing -/

/-- Nothing that the store shows changed. -/
def Still (fs : Resctrl κ) (alloc : κ → Nat → Schemata) (cpuClass : κ → Nat → Option Nat)
    (taskClass : κ → Nat → Nat) (k k' : κ) : Prop :=
  alloc k' = alloc k ∧ SameCos cpuClass taskClass k k' ∧ fs.taskExists k' = fs.taskExists k

variable {alloc : κ → Nat → Schemata} {cpuClass : κ → Nat → Option Nat} {taskClass : κ → Nat → Nat}
  {n : Nat}

theorem Still.isFrame : Frame (Still fs alloc cpuClass taskClass) :=
  (Frame.eq alloc).and ((SameCos.isFrame cpuClass taskClass).and (Frame.eq fs.taskExists))

theorem Still.view {k k' : κ} (h : Still fs alloc cpuClass taskClass k k') :
    osView fs alloc cpuClass taskClass n k' = osView fs alloc cpuClass taskClass n k := by
  obtain ⟨halloc, ⟨hcpu, htask⟩, hexists⟩ := h
  simp only [osView, halloc, hcpu, htask, hexists]

theorem osView_alloc {k k' : κ} {a : Nat → Schemata} (halloc : alloc k' = a)
    (hsame : SameCos cpuClass taskClass k k') (hexists : fs.taskExists k' = fs.taskExists k) :
    osView fs alloc cpuClass taskClass n k' = { osView fs alloc cpuClass taskClass n k with
      l3 := entryOf n (fun c => (a c).l3ca) L3ca.u
      l2 := entryOf n (fun c => (a c).l2ca) L2ca.waysMask
      mba := entryOf n (fun c => (a c).mba) Mba.mbRate } := by
  simp only [osView, halloc, hsame.1, hsame.2, hexists]

section Kernel

variable (hk : GroupKernel p fs alloc cpuClass taskClass n)
include hk

theorem readFile_still (classId : Nat) (file : RctlFile) :
    Keeps (Still fs alloc cpuClass taskClass) (readFile fs classId file) :=
  Keeps.mapError (fun k => ⟨(hk.reads_alloc classId file k).1, hk.reads classId file k,
    (hk.reads_alloc classId file k).2⟩) _

/-- Only a class of the kernel has files. -/
theorem readFile_lt {classId : Nat} {file : RctlFile} {text : List Char} {k k' : κ}
    (h : (readFile fs classId file).run k = .ok text k') : classId < n := by
  refine Nat.not_le.1 fun hle => ?_
  obtain ⟨k₁, hrun⟩ := hk.absent hle file k
  rw [readFile, mapError_ok, hrun] at h
  cases h

theorem writeFile_refused {classId : Nat} {file : RctlFile} {text : List Char} {k k' : κ} {e : Err}
    (h : (writeFile fs classId file text).run k = .error e k') :
    Still fs alloc cpuClass taskClass k k' := by
  obtain ⟨u, hrun, -⟩ := mapError_error.1 h
  exact ⟨hk.refused_alloc hrun, hk.refused hrun, (hk.writes_exist classId file text).of_error hrun⟩

theorem schemataReadFile_still (classId : Nat) (schmt : Schemata) :
    Keeps (Still fs alloc cpuClass taskClass) (schemataReadFile fs classId schmt) :=
  Keeps.bind Still.isFrame (readFile_still hk classId .schemata) fun _ =>
    Keeps.ofExcept Still.isFrame _

theorem schemataGet_still (classId : Nat) :
    Keeps (Still fs alloc cpuClass taskClass) (schemataGet p fs classId) :=
  Keeps.bind Still.isFrame (Keeps.ofExcept Still.isFrame _) fun schmt =>
    schemataReadFile_still hk classId schmt

theorem cpumaskRead_still (classId : Nat) :
    Keeps (Still fs alloc cpuClass taskClass) (cpumaskRead fs classId) :=
  Keeps.map Still.isFrame (readFile_still hk classId .cpus)

omit hk in
/-- A program that changes nothing and answers from the store it sees. -/
theorem shows_still {α : Type} {P : Store → α → Prop} {x : EStateM Err κ α}
    (hstill : Keeps (Still fs alloc cpuClass taskClass) x)
    (hok : ∀ k a k', x.run k = .ok a k' → P (osView fs alloc cpuClass taskClass n k) a) :
    Shows (osView fs alloc cpuClass taskClass n) (Reads P) x := by
  intro k
  refine ⟨(hstill k).view, fun a ha => ?_⟩
  rcases hrun : x.run k with ⟨b, k'⟩ | ⟨e, k'⟩ <;> rw [hrun] at ha
  · cases ha
    exact hok k a k' hrun
  · cases ha

/-! ## Schemata -/

theorem schemataGet_store {classId : Nat} {k k' : κ} {s : Schemata}
    (h : (schemataGet p fs classId).run k = .ok s k') : classId < n ∧ s = alloc k classId := by
  have hlt : classId < n := by
    unfold schemataGet schemataReadFile at h
    simp only [bind_ok] at h
    obtain ⟨_, _, -, _, _, hread, -⟩ := h
    exact readFile_lt hk hread
  exact ⟨hlt, schemataGet_alloc hk.schemataKernel hlt h⟩

/-- An update that succeeds is of a class of the kernel, and the class has what was written. -/
theorem schemataUpdate_store {classId : Nat} {f : Schemata → Except Err Schemata} {t : Schemata}
    {k k' : κ} (h : (schemataUpdate p fs classId f).run k = .ok t k')
    (hf : ∀ s, HasEntries p classId s → s.Settled p → f s = .ok t →
      HasEntries p classId t ∧ t.Settled p) :
    classId < n ∧ f (alloc k classId) = .ok t ∧ alloc k' = Function.update (alloc k) classId t
      ∧ SameCos cpuClass taskClass k k' ∧ fs.taskExists k' = fs.taskExists k := by
  unfold schemataUpdate schemataWriteFile writeFile at h
  simp only [bind_ok, ofExcept_ok, mapError_ok] at h
  obtain ⟨s, k₁, hget, u, _, ⟨hu, rfl⟩, ⟨⟩, k₂, hwrite, h⟩ := h
  cases h
  obtain ⟨hlt, rfl⟩ := schemataGet_store hk hget
  obtain ⟨halloc, hsame, hexists⟩ := (schemataGet_still hk classId).of_ok hget
  obtain ⟨hent, hsettled⟩ :=
    hf _ (hk.schemataKernel.entries k classId hlt) (hk.settled k classId hlt) hu
  refine ⟨hlt, hu, ?_, ?_, ?_⟩
  · rw [hk.schemata_write hlt (schemataWrite_lists hent.uniform) hent hsettled hwrite, halloc]
  · exact (SameCos.isFrame _ _).trans hsame ((hk.schemata classId _).of_ok hwrite)
  · exact ((hk.writes_exist classId .schemata _).of_ok hwrite).trans hexists

theorem schemataUpdate_error {classId : Nat} {f : Schemata → Except Err Schemata} {e : Err}
    {k k' : κ} (h : (schemataUpdate p fs classId f).run k = .error e k') :
    Still fs alloc cpuClass taskClass k k' := by
  unfold schemataUpdate at h
  simp only [bind_error] at h
  rcases h with h | ⟨s, k₁, hget, h | ⟨u, k₂, hu, h | ⟨_, k₃, -, h⟩⟩⟩
  · exact (schemataGet_still hk classId).of_error h
  · obtain ⟨-, rfl⟩ := ofExcept_error.1 h
    exact (schemataGet_still hk classId).of_ok hget
  · obtain ⟨-, rfl⟩ := ofExcept_ok.1 hu
    exact Still.isFrame.trans ((schemataGet_still hk classId).of_ok hget) (writeFile_refused hk h)
  · cases h

/-- An update that replaces an entry is one of the store, if what it writes is of the class. -/
theorem schemataUpdate_shows {classId : Nat} {f : Schemata → Except Err Schemata}
    {g : Store → Store} (hf : ∀ s t, HasEntries p classId s → s.Settled p → f s = .ok t →
      HasEntries p classId t ∧ t.Settled p)
    (hg : ∀ k k' t, classId < n → f (alloc k classId) = .ok t →
      alloc k' = Function.update (alloc k) classId t → SameCos cpuClass taskClass k k' →
      fs.taskExists k' = fs.taskExists k →
      osView fs alloc cpuClass taskClass n k' = g (osView fs alloc cpuClass taskClass n k)) :
    Shows (osView fs alloc cpuClass taskClass n) (Sets g) (schemataUpdate p fs classId f) := by
  intro k
  rcases hrun : (schemataUpdate p fs classId f).run k with ⟨t, k'⟩ | ⟨e, k'⟩
  · obtain ⟨hlt, hft, halloc, hsame, hexists⟩ := schemataUpdate_store hk hrun fun s => hf s t
    exact Sets.of_ok (hg k k' t hlt hft halloc hsame hexists)
  · exact Sets.of_error ((schemataUpdate_error hk hrun).view)

omit hk in
theorem L3ca.asPair_u {ca : L3ca} {cdpOn : Bool} (h : ¬ (ca.cdp = true ∧ cdpOn = false)) :
    (ca.asPair cdpOn).u = ca.u.held cdpOn ∧ (ca.asPair cdpOn).classId = ca.classId
      ∧ (ca.asPair cdpOn).cdp = cdpOn := by
  rcases ca with ⟨c, m | ⟨d, m⟩⟩ <;> cases cdpOn <;> simp_all [L3ca.asPair, L3Masks.held, L3ca.cdp,
    L3Masks.dataMask, L3Masks.codeMask]

theorem osL3caWrite_shows (socket : Nat) (ca : L3ca) :
    Shows (osView fs alloc cpuClass taskClass n) (Sets (Store.putL3 p.cdpOn socket ca))
      (osL3caWrite p fs p.cdpOn socket ca) := by
  refine shows_failIf_bind Sets.mayFail fun hcdp => ?_
  obtain ⟨hu, hclass, hpair⟩ := L3ca.asPair_u hcdp
  refine Shows.discard (schemataUpdate_shows hk ?_ ?_)
  · intro s t hs hset ht
    obtain ⟨l, hl, rfl⟩ := except_map_ok.1 ht
    obtain ⟨rfl, -⟩ := setAt_ok hl
    refine ⟨⟨map_set_replicate hs.l3ca socket ?_, hs.l2ca, hs.mba⟩, hset⟩
    rw [hclass, hpair]
  · intro k k' t hlt ht halloc hsame hexists
    obtain ⟨l, hl, rfl⟩ := except_map_ok.1 ht
    obtain ⟨rfl, hlen⟩ := setAt_ok hl
    rw [osView_alloc halloc hsame hexists]
    refine Store.ext rfl rfl ?_ (entryOf_same Schemata.l2ca _ rfl) (entryOf_same Schemata.mba _ rfl)
    exact (entryOf_set Schemata.l3ca _ hlt hlen rfl).trans (by rw [hu]; rfl)

theorem osL2caWrite_shows (l2id : Nat) (ca : L2ca) :
    Shows (osView fs alloc cpuClass taskClass n) (Sets (Store.putL2 l2id ca))
      (osL2caWrite p fs l2id ca) := by
  refine Shows.discard (schemataUpdate_shows hk ?_ ?_)
  · intro s t hs hset ht
    obtain ⟨l, hl, rfl⟩ := except_map_ok.1 ht
    obtain ⟨rfl, -⟩ := setAt_ok hl
    exact ⟨⟨hs.l3ca, map_set_replicate hs.l2ca l2id rfl, hs.mba⟩, hset⟩
  · intro k k' t hlt ht halloc hsame hexists
    obtain ⟨l, hl, rfl⟩ := except_map_ok.1 ht
    obtain ⟨rfl, hlen⟩ := setAt_ok hl
    rw [osView_alloc halloc hsame hexists]
    exact Store.ext rfl rfl (entryOf_same Schemata.l3ca _ rfl)
      (entryOf_set Schemata.l2ca _ hlt hlen rfl) (entryOf_same Schemata.mba _ rfl)

omit hk in
/-- A rate that was rounded to the step is left alone by the next rounding. -/
theorem osMbaRate_settles {step rate : Nat} (hstep : step ≤ 100) (hrate : rate ≤ 100) :
    osMbaRate step (osMbaRate step rate) = osMbaRate step rate := by
  have hround : ∀ r ≤ 200, mbaRound step r = (r + step / 2) / step * step := by
    intro r hr
    have hle : (r + step / 2) / step * step ≤ r + step / 2 := Nat.div_mul_le_self _ _
    unfold mbaRound
    rw [Nat.mod_eq_of_lt (by omega : r + step / 2 < 2 ^ 32), Nat.mod_eq_of_lt (by omega)]
  have hagain : ∀ q, 0 < step → (q * step + step / 2) / step * step = q * step := by
    intro q hpos
    rw [Nat.mul_comm q, Nat.mul_add_div hpos, Nat.div_eq_of_lt (by omega : step / 2 < step),
      Nat.add_zero, Nat.mul_comm]
  rcases Nat.eq_zero_or_pos step with rfl | hpos
  · simp [osMbaRate, mbaRound]
  have hle : (rate + step / 2) / step * step ≤ rate + step / 2 := Nat.div_mul_le_self _ _
  have hfix : ∀ q, q * step ≤ 200 → q ≠ 0 → osMbaRate step (q * step) = q * step := by
    intro q hq hne
    have hmul : q * step ≠ 0 := Nat.mul_ne_zero hne (by omega)
    rw [osMbaRate, hround _ hq, hagain q hpos, if_neg hmul]
  have hval : osMbaRate step rate = if (rate + step / 2) / step * step = 0 then step
      else (rate + step / 2) / step * step := by rw [osMbaRate, hround rate (by omega)]
  rw [hval]
  split_ifs with hzero
  · simpa using hfix 1 (by omega) (by decide)
  · exact hfix _ (by omega) fun hq => hzero (by rw [hq, Nat.zero_mul])

/-- A rounded rate in its place leaves a class's schemata one that the kernel keeps. -/
theorem setMba_keeps {socket : Nat} {c : CapMba} {r : Mba} {s t : Schemata}
    (hc : p.capGetType CapItem.mba? = .ok c) (hr : r.mbRate ≤ 100) (hs : HasEntries p r.classId s)
    (hset : s.Settled p)
    (ht : ((setAt socket ⟨r.classId, osMbaRate c.throttleStep r.mbRate⟩ s.mba).map fun l =>
      { s with mba := l }) = .ok t) : HasEntries p r.classId t ∧ t.Settled p := by
  obtain ⟨l, hl, rfl⟩ := except_map_ok.1 ht
  obtain ⟨rfl, -⟩ := setAt_ok hl
  refine ⟨⟨hs.l3ca, hs.l2ca, map_set_replicate hs.mba socket rfl⟩, fun c' hc' b hb => ?_⟩
  obtain rfl : c' = c := Except.ok.inj (hc'.symm.trans hc)
  rcases List.mem_or_eq_of_mem_set hb with hb | rfl
  · exact hset c' hc' b hb
  · exact osMbaRate_settles (hk.step_le c' hc') hr

theorem osMbaWrite_shows (socket : Nat) {c : CapMba} {r : Mba}
    (hc : p.capGetType CapItem.mba? = .ok c) (hr : r.mbRate ≤ 100) :
    Shows (osView fs alloc cpuClass taskClass n) (Sets (Store.putMba (osRules p).rate socket r))
      (osMbaWrite p fs c.throttleStep socket r) := by
  refine schemataUpdate_shows hk (fun s t hs hset ht => setMba_keeps hk hc hr hs hset ht) ?_
  intro k k' t hlt ht halloc hsame hexists
  obtain ⟨l, hl, rfl⟩ := except_map_ok.1 ht
  obtain ⟨rfl, hlen⟩ := setAt_ok hl
  rw [osView_alloc halloc hsame hexists]
  refine Store.ext rfl rfl (entryOf_same Schemata.l3ca _ rfl) (entryOf_same Schemata.l2ca _ rfl) ?_
  refine (entryOf_set Schemata.mba _ hlt hlen rfl).trans ?_
  have hrate : (osRules p).rate r.mbRate = osMbaRate c.throttleStep r.mbRate := by
    simp only [osRules, hc]
  rw [Store.putMba, hrate]
  rfl

/-- A class's file read into a structure of its shape is what the class has. -/
theorem schemataReadFile_store {classId : Nat} {init u : Schemata} {k k' : κ}
    (hinit : HasEntries p classId init)
    (h : (schemataReadFile fs classId init).run k = .ok u k') : u = alloc k classId := by
  unfold schemataReadFile at h
  simp only [bind_ok, ofExcept_ok] at h
  obtain ⟨text, k₁, hread, hu, -⟩ := h
  have hlt := readFile_lt hk hread
  have hent := hk.schemataKernel.entries k classId hlt
  exact (hk.schemataKernel.read hlt (mapError_ok.1 hread)).read hent.uniform
    (hk.schemataKernel.rates k classId hlt) (hinit.sameShape hent) hu

/-- What is read back is what was written. -/
theorem osMbaWriteActual_shows (socket : Nat) {c : CapMba} {r : Mba}
    (hc : p.capGetType CapItem.mba? = .ok c) (hr : r.mbRate ≤ 100) :
    Shows (osView fs alloc cpuClass taskClass n)
      (SetsAll (Store.putMba (osRules p).rate socket) whole [r]
        fun b => b = ⟨r.classId, (osRules p).rate r.mbRate⟩)
      (osMbaWriteActual p fs c.throttleStep socket r) := by
  intro k
  have hwrite := osMbaWrite_shows hk socket hc hr
  unfold osMbaWriteActual
  rcases hw : (osMbaWrite p fs c.throttleStep socket r).run k with ⟨t, k₁⟩ | ⟨e, k₁⟩
  · have hput := (hwrite.of_ok hw).1 t rfl
    rw [bind_of_ok hw]
    rcases hread : (schemataReadFile fs r.classId t).run k₁ with ⟨u, k₂⟩ | ⟨e, k₂⟩
    · have hview := ((schemataReadFile_still hk _ _).of_ok hread).view (n := n)
      rw [bind_of_ok hread]
      obtain ⟨hlt, ht, halloc, -, -⟩ := schemataUpdate_store hk hw fun s hs hset ht =>
        setMba_keeps hk hc hr hs hset ht
      obtain ⟨hent, -⟩ := setMba_keeps hk hc hr (hk.schemataKernel.entries k _ hlt)
        (hk.settled k _ hlt) ht
      obtain rfl := schemataReadFile_store hk hent hread
      rw [halloc, Function.update_self]
      obtain ⟨l, hl, rfl⟩ := except_map_ok.1 ht
      obtain ⟨rfl, hlen⟩ := setAt_ok hl
      rw [List.getElem?_set_self hlen]
      refine ⟨fun b hb => ⟨?_, hview.trans hput⟩, nofun⟩
      cases hb
      simp only [osRules, hc]
    · rw [bind_of_error hread]
      refine ⟨nofun, fun _ _ => ⟨[r], List.prefix_rfl, Or.inl ?_⟩⟩
      exact ((schemataReadFile_still hk _ _).of_error hread).view.trans hput
  · rw [bind_of_error hw]
    exact ⟨nofun, fun _ _ => ⟨[], List.nil_prefix, Or.inl ((hwrite.of_error hw).2 e rfl)⟩⟩

/-! ## The calls on class definitions -/

theorem osL3caSet_shows (socket : Nat) (ca : List L3ca) :
    Shows (osView fs alloc cpuClass taskClass n) (SetsAll (Store.putL3 (osRules p).cdpOn socket)
      (Store.halfL3 (osRules p).cdpOn socket) ca fun _ => True) (osL3caSet p fs socket ca) := by
  refine shows_failIf_bind SetsAll.mayFail fun _ => shows_ofExcept_bind SetsAll.mayFail fun _ _ =>
    shows_failIf_bind SetsAll.mayFail fun _ => shows_failIf_bind SetsAll.mayFail fun _ =>
      shows_ofExcept_bind SetsAll.mayFail fun cdpOn hon => Shows.forM_sets fun e _ => ?_
  rw [Platform.cdpOn_eq hon]
  exact osL3caWrite_shows hk socket e

theorem osL2caSet_shows (l2id : Nat) (ca : List L2ca) :
    Shows (osView fs alloc cpuClass taskClass n)
      (SetsAll (Store.putL2 l2id) whole ca fun _ => True) (osL2caSet p fs l2id ca) :=
  shows_ofOption_bind SetsAll.mayFail fun _ _ => shows_ofExcept_bind SetsAll.mayFail fun _ _ =>
    shows_failIf_bind SetsAll.mayFail fun _ => shows_failIf_bind SetsAll.mayFail fun _ =>
      shows_failIf_bind SetsAll.mayFail fun _ =>
        Shows.forM_sets fun e _ => osL2caWrite_shows hk l2id e

theorem osMbaSet_shows (socket : Nat) {requested : List Mba} (want : Bool)
    (hrates : ∀ r ∈ requested, r.mbRate ≤ 100) :
    Shows (osView fs alloc cpuClass taskClass n)
      (SetsAll (Store.putMba (osRules p).rate socket) whole requested fun actual =>
        actual = if want then some (requested.map fun r => ⟨r.classId, (osRules p).rate r.mbRate⟩)
          else none) (osMbaSet p fs socket requested want) := by
  refine shows_ofOption_bind SetsAll.mayFail fun c hc =>
    shows_ofExcept_bind SetsAll.mayFail fun _ _ =>
    shows_failIf_bind SetsAll.mayFail fun _ => shows_failIf_bind SetsAll.mayFail fun _ =>
      shows_failIf_bind SetsAll.mayFail fun _ => ?_
  have hcap : p.capGetType CapItem.mba? = .ok c := by
    rcases h : p.capGetType CapItem.mba? with e | c'
    · rw [h] at hc
      cases hc
    · rw [h] at hc
      rw [Option.some.inj hc]
  cases want
  · have hloop : Shows (osView fs alloc cpuClass taskClass n)
        (SetsAll (Store.putMba (osRules p).rate socket) whole requested fun _ => True)
        (requested.forM fun r => do let _ ← osMbaWrite p fs c.throttleStep socket r) :=
      Shows.forM_sets fun r hr => (osMbaWrite_shows hk socket hcap (hrates r hr)).discard
    exact (hloop.map (f := fun _ => none)).mono fun _ _ _ h => SetsAll.wraps h fun _ _ => rfl
  · have hloop := Shows.mapM fun r hr =>
      osMbaWriteActual_shows hk socket hcap (hrates r hr)
    exact hloop.map.mono fun _ _ _ h => SetsAll.wraps h fun _ hb => congrArg some hb

omit hk in
/-- Results collected over the first numbers are looked up by number. -/
theorem getElem?_of_range {α : Type} {R : Nat → α → Prop} {m : Nat} {tab : List α}
    (h : List.Forall₂ R (List.range m) tab) (j : Nat) :
    (j < m → ∃ b, tab[j]? = some b ∧ R j b) ∧ (m ≤ j → tab[j]? = none) := by
  have hlen : tab.length = m := by rw [← h.length_eq, List.length_range]
  refine ⟨fun hj => ?_, fun hj => List.getElem?_eq_none (by omega)⟩
  have hj' : j < tab.length := by omega
  refine ⟨tab[j], List.getElem?_eq_getElem hj', ?_⟩
  have := h.get (by simpa using hj) hj'
  simpa using this

/-- The loop of a getter answers the entry of each class. -/
theorem schemataEntries_shows {α β : Type} (field : Store → Nat × Nat → Option β)
    (sel : Schemata → List α) (val : α → β) (mk : Nat → β → α) (id : Nat)
    (hfield : ∀ k, field (osView fs alloc cpuClass taskClass n k)
      = entryOf n (fun c => sel (alloc k c)) val)
    (hmk : ∀ k c a, c < n → a ∈ sel (alloc k c) → mk c (val a) = a) :
    Shows (osView fs alloc cpuClass taskClass n)
      (Reads fun a (tab : List α) => ∀ j, tab[j]? = (field a (id, j)).map (mk j))
      ((List.range n).mapM (schemataEntry p fs sel id)) := by
  have hstill : ∀ c, Keeps (Still fs alloc cpuClass taskClass) (schemataEntry p fs sel id c) :=
    fun c => Keeps.bind Still.isFrame (schemataGet_still hk c) fun _ =>
      Keeps.ofOption Still.isFrame _ _
  refine shows_still (Keeps.mapM Still.isFrame fun c _ => hstill c) fun k tab k' h j => ?_
  obtain ⟨hall, -⟩ := mapM_reads alloc (fun a c b => (sel (a c))[id]? = some b)
    (fun c _ k b k' h => by
    refine ⟨?_, ((hstill c).of_ok h).1⟩
    unfold schemataEntry at h
    simp only [bind_ok, ofOption_ok] at h
    obtain ⟨s, k₁, hget, hb, -⟩ := h
    obtain ⟨-, rfl⟩ := schemataGet_store hk hget
    exact hb) h
  obtain ⟨hin, hout⟩ := getElem?_of_range hall j
  rw [hfield, entryOf]
  split_ifs with hj
  · obtain ⟨b, hb, hentry⟩ := hin hj
    rw [hb, hentry, Option.map_some, Option.map_some,
      hmk k j b hj (List.mem_of_getElem? hentry)]
  · rw [hout (Nat.not_lt.1 hj), Option.map_none]

omit hk in
theorem eq_of_mem_keys {α β : Type} {key : α → β} {l : List α} {m : Nat} {b : β} {a : α}
    (h : l.map key = List.replicate m b) (ha : a ∈ l) : key a = b :=
  List.eq_of_mem_replicate (h ▸ List.mem_map_of_mem ha)

theorem osL3caGet_shows (socket m : Nat) : Shows (osView fs alloc cpuClass taskClass n)
    (Reads fun a (tab : List L3ca) => ∀ k, tab[k]? = (a.l3 (socket, k)).map (L3ca.mk k))
    (osL3caGet p fs socket m) := by
  refine shows_failIf_bind Reads.mayFail fun _ => shows_ofExcept_bind Reads.mayFail fun count hn =>
    shows_failIf_bind Reads.mayFail fun _ => shows_failIf_bind Reads.mayFail fun _ => ?_
  obtain rfl : n = count := Except.ok.inj (hk.grps.symm.trans hn)
  refine schemataEntries_shows hk Store.l3 Schemata.l3ca L3ca.u L3ca.mk socket (fun _ => rfl) ?_
  intro k c a hc ha
  have hkey := eq_of_mem_keys (hk.schemataKernel.entries k c hc).l3ca ha
  rw [← (Prod.mk.inj hkey).1]

theorem osL2caGet_shows (l2id m : Nat) : Shows (osView fs alloc cpuClass taskClass n)
    (Reads fun a (tab : List L2ca) => ∀ k, tab[k]? = (a.l2 (l2id, k)).map (L2ca.mk k))
    (osL2caGet p fs l2id m) := by
  refine shows_failIf_bind Reads.mayFail fun _ => shows_ofExcept_bind Reads.mayFail fun count hn =>
    shows_failIf_bind Reads.mayFail fun _ => shows_failIf_bind Reads.mayFail fun _ => ?_
  obtain rfl : n = count := Except.ok.inj (hk.grps.symm.trans hn)
  refine schemataEntries_shows hk Store.l2 Schemata.l2ca L2ca.waysMask L2ca.mk l2id
    (fun _ => rfl) ?_
  intro k c a hc ha
  rw [← eq_of_mem_keys (hk.schemataKernel.entries k c hc).l2ca ha]

theorem osMbaGet_shows (socket m : Nat) : Shows (osView fs alloc cpuClass taskClass n)
    (Reads fun a (tab : List Mba) => ∀ k, tab[k]? = (a.mba (socket, k)).map (Mba.mk k))
    (osMbaGet p fs socket m) := by
  refine shows_failIf_bind Reads.mayFail fun _ => shows_ofExcept_bind Reads.mayFail fun count hn =>
    shows_failIf_bind Reads.mayFail fun _ => shows_failIf_bind Reads.mayFail fun _ => ?_
  obtain rfl : n = count := Except.ok.inj (hk.grps.symm.trans hn)
  refine schemataEntries_shows hk Store.mba Schemata.mba Mba.mbRate Mba.mk socket (fun _ => rfl) ?_
  intro k c a hc ha
  rw [← eq_of_mem_keys (hk.schemataKernel.entries k c hc).mba ha]

/-! ## Cores -/

theorem cpumaskRead_shows (classId : Nat) : Shows (osView fs alloc cpuClass taskClass n)
    (Reads fun a (mask : CpuMask) =>
      ∀ lcore < 4096, mask.get lcore = true ↔ a.cos lcore = some classId)
    (cpumaskRead fs classId) :=
  shows_still (cpumaskRead_still hk classId) fun _ _ _ h => (cpumaskRead_ok hk.toGroupFiles h).2

/-- Writing back a class's mask with more CPUs in it moves those to the class. -/
theorem cpumaskWrite_shows {classId : Nat} {mask : CpuMask} {l : List Nat} (hl : ∀ a ∈ l, a < 4096)
    {k : κ} (hmask : ∀ lcore < 4096, mask.get lcore = true ↔ cpuClass k lcore = some classId) :
    Sets (Store.move classId l) (osView fs alloc cpuClass taskClass n k)
      (outcome ((cpumaskWrite fs classId (l.foldl CpuMask.set mask)).run k))
      (osView fs alloc cpuClass taskClass n
        (final ((cpumaskWrite fs classId (l.foldl CpuMask.set mask)).run k))) := by
  rcases hrun : (cpumaskWrite fs classId (l.foldl CpuMask.set mask)).run k with ⟨⟨⟩, k'⟩ | ⟨e, k'⟩
  · obtain ⟨hcpus, htasks⟩ := cpumaskWrite_ok hk.toGroupFiles hl hmask hrun
    have hwrite := mapError_ok.1 hrun
    have halloc := (hk.writes_alloc classId .cpus _ (by decide)).of_ok hwrite
    have hexists := (hk.writes_exist classId .cpus _).of_ok hwrite
    refine Sets.of_ok ?_
    simp only [osView, Store.move, final_ok, halloc, hexists, htasks]
    congr 1
    funext lcore
    rw [hcpus, Store.moved]
    split_ifs with hmem <;> cases cpuClass k lcore <;> simp
  · exact Sets.of_error (writeFile_refused hk hrun).view

theorem online_lt {lcore : Nat} (k : κ) (h : lcore ∈ p.cpu.lcores) : lcore < 4096 := by
  obtain ⟨c, hc⟩ := Option.isSome_iff_exists.1 ((hk.online k lcore).1 h)
  exact hk.cpus_lt hc

theorem osAllocAssocSet_shows (lcore classId : Nat) :
    Shows (osView fs alloc cpuClass taskClass n) (Sets (Store.move classId [lcore]))
      (osAllocAssocSet p fs lcore classId) := by
  refine shows_failIf_bind Sets.mayFail fun hcore => shows_ofExcept_bind Sets.mayFail fun _ _ =>
    shows_ofExcept_bind Sets.mayFail fun _ _ => shows_failIf_bind Sets.mayFail fun _ =>
      Shows.bind_of_reads Sets.mayFail (cpumaskRead_shows hk classId) fun mask k hmask => ?_
  rw [CpuInfo.getCoreInfo_eq_none, not_not] at hcore
  exact cpumaskWrite_shows hk (l := [lcore]) (by simpa using online_lt hk k hcore) hmask

theorem osFindClass_still (lcore : Nat) : ∀ classes : List Nat,
    Keeps (Still fs alloc cpuClass taskClass) (osFindClass fs lcore classes)
  | [] => Keeps.throw Still.isFrame _
  | i :: classes => by
    refine Keeps.bind Still.isFrame (cpumaskRead_still hk i) fun mask => ?_
    split_ifs
    · exact Keeps.pure Still.isFrame _
    · exact osFindClass_still lcore classes

theorem osAllocAssocGet_shows (lcore : Nat) : Shows (osView fs alloc cpuClass taskClass n)
    (Reads fun a c => a.cos lcore = some c) (osAllocAssocGet p fs lcore) := by
  refine shows_failIf_bind Reads.mayFail fun hcore => shows_ofExcept_bind Reads.mayFail fun _ _ =>
    shows_still (osFindClass_still hk lcore _) fun k c k' h => ?_
  rw [CpuInfo.getCoreInfo_eq_none, not_not] at hcore
  exact (osFindClass_ok hk.toGroupFiles (online_lt hk k hcore) h).1

/-- The core ids that a release accepts are below the number of cores, which a mask can hold. -/
theorem cores_length_le (k : κ) : p.cpu.cores.length ≤ 4096 := by
  have hsub : p.cpu.lcores ⊆ List.range 4096 :=
    fun lcore h => List.mem_range.2 (online_lt hk k h)
  have hlen := (List.subperm_of_subset p.cpu.nodup hsub).length_le
  simpa [CpuInfo.lcores] using hlen

theorem osAllocRelease_shows (l : List Nat) : Shows (osView fs alloc cpuClass taskClass n)
    (SetsSome (fun core => Store.move 0 [core]) l) (osAllocRelease p fs l) := by
  have hmove : Shows (osView fs alloc cpuClass taskClass n) (Sets (Store.move 0 l))
      (osAllocRelease p fs l) := by
    refine Shows.bind_of_reads Sets.mayFail (cpumaskRead_shows hk 0) fun mask k hmask => ?_
    rw [failIf_bind_run]
    split_ifs with hout
    · exact Sets.mayFail _ _
    · refine cpumaskWrite_shows hk (fun a ha => ?_) hmask
      have hlt : a < p.cpu.cores.length := Nat.not_le.1 fun hle => hout ⟨a, ha, hle⟩
      have := cores_length_le hk k
      omega
  refine hmove.mono fun a r a' h => ⟨fun x hx => ?_, fun e he => ⟨[], List.nil_sublist l, ?_⟩⟩
  · rw [h.1 x hx, Store.foldl_move]
  · exact h.2 e he

/-! ## A class in no use -/

omit hk in
theorem CpuMask.get_of_not_any {mask : CpuMask} (h : mask.any = false) (lcore : Nat) :
    mask.get lcore = false := by
  rw [CpuMask.any_eq_false.1 h, CpuMask.get_empty]

/-- No CPU and no task is in the class. -/
def Deserted (fs : Resctrl κ) (cpuClass : κ → Nat → Option Nat) (taskClass : κ → Nat → Nat) (k : κ)
    (c : Nat) : Prop :=
  (∀ lcore, cpuClass k lcore ≠ some c) ∧ ∀ t, fs.taskExists k t = true → taskClass k t ≠ c

theorem osClassUsed_store {c : Nat} {k k' : κ} {used : Bool}
    (h : (osClassUsed fs c).run k = .ok used k') :
    Still fs alloc cpuClass taskClass k k'
      ∧ (used = false → Deserted fs cpuClass taskClass k c) := by
  unfold osClassUsed at h
  rw [bind_ok] at h
  obtain ⟨mask, k₁, hread, h⟩ := h
  have hstill := (cpumaskRead_still hk c).of_ok hread
  obtain ⟨-, hmask⟩ := cpumaskRead_ok hk.toGroupFiles hread
  split_ifs at h with hany
  · cases h
    exact ⟨hstill, nofun⟩
  rw [Bool.not_eq_true] at hany
  unfold taskFileCheck at h
  rw [bind_ok] at h
  obtain ⟨text, k₂, htasks, h⟩ := h
  cases h
  refine ⟨Still.isFrame.trans hstill ((readFile_still hk c .tasks).of_ok htasks), fun hempty => ?_⟩
  have hnil : text = [] := by simpa using hempty
  refine ⟨fun lcore hc => ?_, fun t ht htask => ?_⟩
  · have hget := (hmask lcore (hk.cpus_lt hc)).2 hc
    rw [CpuMask.get_of_not_any hany] at hget
    cases hget
  · obtain ⟨l, htext, hl⟩ := hk.tasks_read (mapError_ok.1 htasks)
    have hmem : t ∈ l := (hl t).2 ⟨by rw [hstill.2.2]; exact ht, by rw [hstill.2.1.2]; exact htask⟩
    rw [hnil, eq_comm, List.flatten_eq_nil_iff] at htext
    have := htext _ (List.mem_map_of_mem hmem)
    simp at this

omit hk in
theorem Deserted.of_still {c : Nat} {k k' : κ} (h : Still fs alloc cpuClass taskClass k k')
    (hd : Deserted fs cpuClass taskClass k' c) : Deserted fs cpuClass taskClass k c := by
  obtain ⟨-, ⟨hcpu, htask⟩, hexists⟩ := h
  unfold Deserted at hd
  rwa [hcpu, htask, hexists] at hd

/-- The classes that the loop leaves out are in no use. -/
theorem osUsedClasses_store : ∀ {hi : Nat} {k k' : κ} {used : List Nat},
    (osUsedClasses fs hi).run k = .ok used k' → Still fs alloc cpuClass taskClass k k'
      ∧ ∀ c, 1 ≤ c → c ≤ hi → c ∉ used → Deserted fs cpuClass taskClass k c
  | 0, k, k', used, h => by
    cases h
    exact ⟨Still.isFrame.refl k, fun c h1 h0 => by omega⟩
  | hi + 1, k, k', used, h => by
    unfold osUsedClasses at h
    simp only [bind_ok] at h
    obtain ⟨b, k₁, hused, classes, k₂, hrest, h⟩ := h
    cases h
    obtain ⟨hstill, hfree⟩ := osClassUsed_store hk hused
    obtain ⟨hstill', hfrees⟩ := osUsedClasses_store hrest
    refine ⟨Still.isFrame.trans hstill hstill', fun c h1 hle hc => ?_⟩
    by_cases hlast : c = hi + 1
    · subst hlast
      refine hfree (Bool.eq_false_iff.2 fun hb => hc ?_)
      rw [if_pos hb]
      exact List.mem_cons_self
    · refine (hfrees c h1 (by omega) fun hmem => hc ?_).of_still hstill
      split_ifs
      · exact List.mem_cons_of_mem _ hmem
      · exact hmem

theorem osUnusedClass_shows (scope : Nat → Prop) : Shows (osView fs alloc cpuClass taskClass n)
    (Reads fun a c => c < n ∧ Store.Unused scope c a) (osUnusedClass p fs) := by
  refine shows_ofExcept_bind Reads.mayFail fun m hm =>
    shows_failIf_bind Reads.mayFail fun hpos => ?_
  obtain rfl : n = m := Except.ok.inj (hk.grps.symm.trans hm)
  have hstill : Keeps (Still fs alloc cpuClass taskClass) (osGetUnusedCos fs (n - 1)) := by
    refine Keeps.bind Still.isFrame ?_ fun _ => Keeps.ofOption Still.isFrame _ _
    generalize n - 1 = hi
    induction hi with
    | zero => exact Keeps.pure Still.isFrame _
    | succ hi ih =>
      have hused : Keeps (Still fs alloc cpuClass taskClass) (osClassUsed fs (hi + 1)) := by
        refine Keeps.bind Still.isFrame (cpumaskRead_still hk _) fun mask => ?_
        split_ifs
        · exact Keeps.pure Still.isFrame _
        · exact Keeps.bind Still.isFrame (readFile_still hk _ _) fun _ => Keeps.pure Still.isFrame _
      exact Keeps.bind Still.isFrame hused fun _ => Keeps.bind Still.isFrame ih fun _ =>
        Keeps.pure Still.isFrame _
  refine shows_still hstill fun k c k' h => ?_
  unfold osGetUnusedCos at h
  simp only [bind_ok, ofOption_ok] at h
  obtain ⟨used, k₁, hused, hfind, -⟩ := h
  obtain ⟨h1, hle, hout, -⟩ := findUnused_ok.1 hfind
  obtain ⟨hcpus, htasks⟩ := (osUsedClasses_store hk hused).2 c h1 hle hout
  refine ⟨by omega, by omega, fun lcore _ => hcpus lcore, fun t ht => ?_⟩
  simp only [osView] at ht
  split_ifs at ht with hexists
  exact htasks t hexists (Option.some.inj ht)

theorem osAllocAssign_shows (technology : Nat) (l : List Nat) :
    Shows (osView fs alloc cpuClass taskClass n)
      (Assigns (Store.Unused fun k => ∃ core ∈ l, (osRules p).near technology core k) Store.move l)
      (osAllocAssign p fs technology l) := by
  refine Shows.bind_of_reads Assigns.mayFail
    (osUnusedClass_shows hk fun k => ∃ core ∈ l, (osRules p).near technology core k)
    fun c k ⟨_, hunused⟩ => ?_
  exact Assigns.of_forM hunused (fun l a => Store.foldl_move l a)
    (Shows.forM_sets fun core _ => osAllocAssocSet_shows hk core c)

/-! ## Tasks -/

theorem taskWrite_shows (classId task : Nat) : Shows (osView fs alloc cpuClass taskClass n)
    (Sets (Store.moveTasks classId [task])) (taskWrite fs classId task) := by
  intro k
  unfold taskWrite
  rw [get_bind]
  rcases hexists : fs.taskExists k task with _ | _
  · rw [bind_of_error (failIf_error.2 ⟨rfl, rfl, rfl⟩)]
    exact Sets.mayFail _ _
  rw [bind_of_ok (a := ()) (failIf_ok.2 ⟨by simp, rfl⟩)]
  rcases hrun : (writeFile fs classId .tasks (Nat.toDigits 10 task ++ ['\n'])).run k
    with ⟨⟨⟩, k'⟩ | ⟨e, k'⟩
  · have hwrite := mapError_ok.1 hrun
    obtain ⟨hcpus, htasks⟩ := hk.tasks_write hwrite
    have halloc := (hk.writes_alloc classId .tasks _ (by decide)).of_ok hwrite
    have hkept := (hk.writes_exist classId .tasks _).of_ok hwrite
    refine Sets.of_ok ?_
    simp only [osView, Store.moveTasks, final_ok, halloc, hcpus, htasks, hkept]
    congr 1
    funext t
    by_cases ht : t = task <;> simp [Store.moved, ht, hexists]
  · exact Sets.of_error (writeFile_refused hk hrun).view

theorem osAllocAssignPid_shows (technology : Nat) (l : List Nat) :
    Shows (osView fs alloc cpuClass taskClass n)
      (Assigns (Store.Unused fun _ => True) Store.moveTasks l)
      (osAllocAssignPid p fs technology l) := by
  refine Shows.bind_of_reads Assigns.mayFail
    (osUnusedClass_shows hk fun _ => True) fun c k ⟨_, hunused⟩ => ?_
  exact Assigns.of_forM hunused (fun l a => Store.foldl_moveTasks l a)
    (Shows.forM_sets fun task _ => taskWrite_shows hk c task)

/-- A task that is gone has no class to leave. -/
theorem osReleaseTask_shows (task : Nat) : Shows (osView fs alloc cpuClass taskClass n)
    (Sets (Store.moveTasks 0 [task])) (osReleaseTask fs task) := by
  intro k
  have hwrite := taskWrite_shows hk 0 task k
  unfold osReleaseTask
  rcases hrun : (taskWrite fs 0 task).run k with ⟨⟨⟩, k'⟩ | ⟨e, k'⟩ <;> rw [hrun] at hwrite
  · rw [attempt_bind_of_ok hrun, failIf_run, if_neg (by simp)]
    exact Sets.of_ok (hwrite.1 ⟨⟩ rfl)
  · rw [attempt_bind_of_error hrun, failIf_run]
    split_ifs with he
    · exact Sets.of_error (hwrite.2 e rfl)
    · refine Sets.of_ok ((hwrite.2 e rfl).trans ?_)
      have hgone : (osView fs alloc cpuClass taskClass n k).task task = none := by
        rcases taskWrite_run hk.toGroupFiles 0 task k with
          ⟨k₁, hok, -⟩ | ⟨k₁, herr, -⟩ | ⟨-, -⟩
        · rw [hok] at hrun
          cases hrun
        · rw [herr] at hrun
          cases hrun
          exact absurd rfl he
        · refine if_neg fun hexists => ?_
          unfold taskWrite at hrun
          rw [get_bind, bind_of_ok (a := ()) (failIf_ok.2 ⟨by simp [hexists], rfl⟩),
            writeFile] at hrun
          obtain ⟨-, -, rfl⟩ := mapError_error.1 hrun
          exact he rfl
      refine Store.ext rfl (funext fun t => ?_) rfl rfl rfl
      by_cases ht : t = task <;> simp [Store.moveTasks, Store.moved, ht, hgone]

theorem osAllocReleasePid_shows (l : List Nat) : Shows (osView fs alloc cpuClass taskClass n)
    (SetsAll (fun task => Store.moveTasks 0 [task]) whole l fun _ => True)
    (osAllocReleasePid fs l) :=
  Shows.forM_sets fun task _ => osReleaseTask_shows hk task

omit hk in
/-- A line of a `tasks` file is read as the task it names. -/
theorem taskLine_toDigits {task : Nat} (h : task < 2 ^ 31) :
    taskLine (Nat.toDigits 10 task ++ ['\n']) = .ok task := by
  have hnul : cstr (Nat.toDigits 10 task ++ ['\n']) = Nat.toDigits 10 task ++ ['\n'] := by
    refine List.takeWhile_eq_self_iff.2 fun c hc => ?_
    rcases List.mem_append.1 hc with hc | hc
    · obtain ⟨d, hd, rfl⟩ := mem_toDigits (by decide) hc
      have := (digitChar_plain d (by omega)).2
      simp only [List.mem_cons, not_or] at this
      simp [this]
    · rw [List.mem_singleton.1 hc]
      decide
  rw [taskLine, hnul]
  exact strtouint64_numeral (by decide) (numeral_toDigits (by decide) (by decide) task) (by omega)
    (Or.inr rfl)

omit hk in
/-- A `tasks` file is read line by line. -/
theorem fgets_tasks {l : List Nat} (h : ∀ task ∈ l, task < 2 ^ 31) :
    fgets taskLineSize (l.map fun task => Nat.toDigits 10 task ++ ['\n']).flatten
      = l.map fun task => Nat.toDigits 10 task ++ ['\n'] := by
  refine fgets_lines fun line hline => ?_
  obtain ⟨task, htask, rfl⟩ := List.mem_map.1 hline
  have hlen : (Nat.toDigits 10 task).length ≤ 10 :=
    Nat.toDigits_length 10 task 10 (by decide) (by have := h task htask; omega)
  refine ⟨by simp only [List.length_append, List.length_singleton, taskLineSize]; omega, _, rfl, ?_⟩
  intro hc
  obtain ⟨d, hd, hnl⟩ := mem_toDigits (by decide) hc
  have := (digitChar_plain d (by omega)).2
  rw [← hnl] at this
  simp at this

theorem tasks_text {classId : Nat} {k k' : κ} {text : List Char}
    (h : (readFile fs classId .tasks).run k = .ok text k') :
    ∃ l : List Nat, fgets taskLineSize text = l.map (fun task => Nat.toDigits 10 task ++ ['\n'])
      ∧ (∀ task ∈ l, task < 2 ^ 31)
      ∧ ∀ task, task ∈ l ↔ (osView fs alloc cpuClass taskClass n k).task task = some classId := by
  obtain ⟨l, rfl, hl⟩ := hk.tasks_read (mapError_ok.1 h)
  have hlt : ∀ task ∈ l, task < 2 ^ 31 := fun task ht => hk.task_lt ((hl task).1 ht).1
  refine ⟨l, fgets_tasks hlt, hlt, fun task => ?_⟩
  rw [hl, osView]
  by_cases hexists : fs.taskExists k task = true <;> simp [hexists]

theorem taskFind_still (task : Nat) : ∀ m : Nat,
    Keeps (Still fs alloc cpuClass taskClass) (taskFind fs task m)
  | 0 => Keeps.throw Still.isFrame _
  | m + 1 => by
    refine Keeps.bind Still.isFrame (readFile_still hk m .tasks) fun text => ?_
    split_ifs
    · exact Keeps.pure Still.isFrame _
    · exact taskFind_still task m

/-- The class whose file has the task is the class of the task. -/
theorem taskFind_ok (task : Nat) : ∀ {m c : Nat} {k k' : κ},
    (taskFind fs task m).run k = .ok c k' →
      (osView fs alloc cpuClass taskClass n k).task task = some c
  | 0, _, _, _, h => by cases h
  | m + 1, c, k, k', h => by
    unfold taskFind at h
    rw [bind_ok] at h
    obtain ⟨text, k₁, hread, h⟩ := h
    obtain ⟨l, hlines, hlt, hl⟩ := tasks_text hk hread
    split_ifs at h with hany
    · cases h
      rw [hlines, List.any_map, List.any_eq_true] at hany
      obtain ⟨t, ht, hmatch⟩ := hany
      have hnum : isTaskLine task (Nat.toDigits 10 t ++ ['\n']) = true := hmatch
      rw [isTaskLine, taskLine_toDigits (hlt t ht)] at hnum
      have hsmall := hlt t ht
      rw [decide_eq_true_eq, Nat.mod_eq_of_lt (by omega)] at hnum
      exact (hl task).1 (hnum ▸ ht)
    · rw [← ((readFile_still hk m .tasks).of_ok hread).view (n := n)]
      exact taskFind_ok task h

theorem osAllocAssocGetPid_shows (task : Nat) : Shows (osView fs alloc cpuClass taskClass n)
    (Reads fun a c => a.task task = some c) (osAllocAssocGetPid p fs task) := by
  intro k
  unfold osAllocAssocGetPid taskSearch
  rw [get_bind]
  exact shows_failIf_bind Reads.mayFail (fun _ => shows_ofExcept_bind Reads.mayFail fun _ _ =>
    shows_still (taskFind_still hk task _) fun _ _ _ h => taskFind_ok hk task h) k

theorem osAllocAssocSetPid_shows (task classId : Nat) : Shows (osView fs alloc cpuClass taskClass n)
    (Sets (Store.moveTasks classId [task])) (osAllocAssocSetPid p fs task classId) :=
  shows_ofExcept_bind Sets.mayFail fun _ _ => shows_failIf_bind Sets.mayFail fun _ =>
    taskWrite_shows hk classId task

theorem osPidGetPidAssoc_shows (classId : Nat) : Shows (osView fs alloc cpuClass taskClass n)
    (Reads fun a (l : List Nat) => ∀ t, t ∈ l ↔ a.task t = some classId)
    (osPidGetPidAssoc p fs classId) := by
  refine shows_ofExcept_bind Reads.mayFail fun _ _ => shows_failIf_bind Reads.mayFail fun _ =>
    shows_still ?_ fun k tasks k' h => ?_
  · exact Keeps.bind Still.isFrame (readFile_still hk classId .tasks) fun _ =>
      Keeps.bind Still.isFrame (Keeps.ofExcept Still.isFrame _) fun _ => Keeps.pure Still.isFrame _
  · unfold taskRead at h
    simp only [bind_ok, ofExcept_ok] at h
    obtain ⟨text, k₁, hread, tids, _, ⟨hlines, rfl⟩, h⟩ := h
    cases h
    obtain ⟨l, htext, hlt, hl⟩ := tasks_text hk hread
    have htids : ∀ l : List Nat, (∀ t ∈ l, t < 2 ^ 31) →
        (l.map fun t => Nat.toDigits 10 t ++ ['\n']).mapM taskLine = .ok l := by
      intro l hlt
      induction l with
      | nil => rfl
      | cons t l ih =>
        rw [List.map_cons, List.mapM_cons, taskLine_toDigits (hlt t List.mem_cons_self),
          ih fun t ht => hlt t (List.mem_cons_of_mem _ ht)]
        rfl
    rw [htext, htids l hlt] at hlines
    obtain rfl : tids = l := (Except.ok.inj hlines).symm
    have hsame : tids.map (· % 2 ^ 32) = tids := by
      refine (List.map_congr_left fun t ht => ?_).trans (List.map_id tids)
      have := hlt t ht
      exact Nat.mod_eq_of_lt (by omega)
    rw [hsame]
    exact hl

/-! ## The back end -/

/-- The files keep a store. -/
theorem osPidBackend_keeping : Keeping (osPidBackend p fs) (osView fs alloc cpuClass taskClass n)
    (osRules p) fun _ => True where
  l3caSet socket ca _ := osL3caSet_shows hk socket ca
  l3caGet := osL3caGet_shows hk
  l2caSet l2id ca _ := osL2caSet_shows hk l2id ca
  l2caGet := osL2caGet_shows hk
  mbaSet socket _ want _ hrates := osMbaSet_shows hk socket want hrates
  mbaGet := osMbaGet_shows hk
  assocSet lcore classId _ := osAllocAssocSet_shows hk lcore classId
  assocGet := osAllocAssocGet_shows hk
  assign technology l _ := osAllocAssign_shows hk technology l
  release l _ := osAllocRelease_shows hk l
  assocSetPid task classId _ := osAllocAssocSetPid_shows hk task classId
  assocGetPid := osAllocAssocGetPid_shows hk
  assignPid technology l _ := osAllocAssignPid_shows hk technology l
  releasePid l _ := osAllocReleasePid_shows hk l
  pidAssoc := osPidGetPidAssoc_shows hk

end Kernel

end Pqos
