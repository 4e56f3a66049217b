import Pqos.Proofs.Assign
import Pqos.Proofs.CdpRuns

/-!
# The table of used classes

The search for an unused class marks the classes it finds in use in a table of fixed size, and then
reads the table from the highest class down. Nothing compares that class with the size: the table
is left as soon as every requested technology has more classes than it has entries.
-/

namespace Pqos

open Prog

/-! ## The search with its table -/

/-- The registers, and the table with the indexes it was accessed at so far. -/
structure CosSearch where
  msr : Msr
  usedClasses : Nat → Bool
  indexes : List Nat

/-- The table is cleared first. -/
def CosSearch.start (s : Msr) : CosSearch := ⟨s, fun _ => false, []⟩

section

variable (p : Platform)

/-- Mark the class of a core, unless it is above the highest one looked for. -/
def markUsed (hi lcore : Nat) : EStateM Err CosSearch Unit := do
  let cos ← zoom CosSearch.msr (fun m s => { s with msr := m }) (cosAssocGet p lcore)
  unless hi < cos do
    modify fun s => { s with
      usedClasses := Function.update s.usedClasses cos true
      indexes := cos :: s.indexes }

/-- Read the table downwards from an index to the first class that is not marked. -/
def searchUsed : Nat → EStateM Err CosSearch Nat
  | 0 => throw .resource
  | cos + 1 => do
    let s ← get
    set { s with indexes := (cos + 1) :: s.indexes }
    if s.usedClasses (cos + 1) then searchUsed cos else return cos + 1

def getUnusedCosTable (id technology : Nat) : EStateM Err CosSearch Nat := do
  let hi ← ofExcept (getHiCosId p technology)
  (p.cpu.getCoresPerTopologyObj (scopeId technology) id).forM (markUsed p hi)
  searchUsed hi

end

variable {p : Platform} {technology : Nat}

/-! ## It is the search of the model -/

section Refines

/-- The table marks the classes of `used`. -/
def CosSearch.Marks (used : List Nat) (s : CosSearch) : Prop :=
  ∀ c, s.usedClasses c = true ↔ c ∈ used

/-- One core marks its class, if that is not above the highest. -/
theorem markUsed_ok (hi : Nat) {core cos : Nat} {s : CosSearch} {m : Msr} {used : List Nat}
    (hs : s.Marks used) (hr : (cosAssocGet p core).run s.msr = .ok cos m) :
    ∃ t, (markUsed p hi core).run s = .ok ⟨⟩ t ∧ t.msr = m
      ∧ t.Marks (used ++ [cos].filter (· ≤ hi)) := by
  unfold markUsed
  rw [bind_of_ok (zoom_ok.2 ⟨m, hr, rfl⟩)]
  by_cases hlt : hi < cos
  · rw [if_pos hlt]
    exact ⟨_, rfl, rfl, fun c => by simpa [hlt] using hs c⟩
  · rw [if_neg hlt]
    refine ⟨_, rfl, rfl, fun c => ?_⟩
    simp only [Function.update_apply]
    split_ifs with hc
    · simp [hc, Nat.le_of_not_lt hlt]
    · simp [hs c, hc, Nat.le_of_not_lt hlt]

theorem markUsed_forM (hi : Nat) : ∀ (cores : List Nat) {s : CosSearch} {used : List Nat},
    s.Marks used →
      match (cores.mapM (cosAssocGet p)).run s.msr with
      | .ok cs m => ∃ t, (cores.forM (markUsed p hi)).run s = .ok ⟨⟩ t ∧ t.msr = m
          ∧ t.Marks (used ++ cs.filter (· ≤ hi))
      | .error e m => ∃ t, (cores.forM (markUsed p hi)).run s = .error e t ∧ t.msr = m
  | [], s, used, hs => by
    rw [List.mapM_nil, EStateM.run_pure]
    exact ⟨s, rfl, rfl, by simpa using hs⟩
  | core :: cores, s, used, hs => by
    rw [List.mapM_cons, List.forM_eq_forM, List.forM_cons]
    rcases hr : (cosAssocGet p core).run s.msr with ⟨cos, m⟩ | ⟨e, m⟩
    · obtain ⟨t, ht, htm, htu⟩ := markUsed_ok hi hs hr
      rw [bind_of_ok hr, bind_of_ok ht]
      have ih := markUsed_forM hi cores htu
      rw [htm] at ih
      rcases hm : (cores.mapM (cosAssocGet p)).run m with ⟨cs, m'⟩ | ⟨e, m'⟩
      · rw [hm] at ih
        rw [bind_of_ok hm]
        obtain ⟨u, hu, hum, huu⟩ := ih
        refine ⟨u, hu, hum, ?_⟩
        rwa [List.append_assoc, ← List.filter_append] at huu
      · rw [hm] at ih
        rw [bind_of_error hm]
        exact ih
    · rw [bind_of_error hr]
      refine ⟨{ s with msr := m }, bind_of_error ?_, rfl⟩
      exact bind_of_error (zoom_error.2 ⟨m, hr, rfl⟩)

theorem searchUsed_run {used : List Nat} : ∀ (hi : Nat) {s : CosSearch}, s.Marks used →
    outcome ((searchUsed hi).run s)
        = outcome ((ofOption .resource (findUnused used hi) : EStateM Err Msr Nat).run s.msr)
      ∧ (final ((searchUsed hi).run s)).msr = s.msr
  | 0, _, _ => ⟨rfl, rfl⟩
  | cos + 1, s, hs => by
    unfold searchUsed findUnused
    rw [get_bind, set_bind]
    by_cases h : cos + 1 ∈ used
    · rw [if_pos ((hs _).2 h), if_pos h]
      exact searchUsed_run cos (s := { s with indexes := (cos + 1) :: s.indexes }) hs
    · rw [if_neg fun ht => h ((hs _).1 ht), if_neg h]
      exact ⟨rfl, rfl⟩

theorem ofOption_final {σ α : Type} {e : Err} {o : Option α} {s : σ} :
    final ((ofOption e o : EStateM Err σ α).run s) = s := by
  cases o <;> rfl

/-- The table changes nothing of what the search returns or does to the machine. -/
theorem getUnusedCosTable_refines (id : Nat) (s : Msr) :
    outcome ((getUnusedCosTable p id technology).run (.start s))
        = outcome ((getUnusedCos p id technology).run s)
      ∧ (final ((getUnusedCosTable p id technology).run (.start s))).msr
        = final ((getUnusedCos p id technology).run s) := by
  unfold getUnusedCosTable getUnusedCos
  cases hhi : getHiCosId p technology with
  | error e => exact ⟨rfl, rfl⟩
  | ok hi =>
    rw [bind_of_ok (ofExcept_ok.2 ⟨rfl, rfl⟩), bind_of_ok (ofExcept_ok.2 ⟨rfl, rfl⟩)]
    have hclear : (CosSearch.start s).Marks [] := by
      intro c
      simp [CosSearch.start]
    have hloop := markUsed_forM (p := p) hi (p.cpu.getCoresPerTopologyObj (scopeId technology) id)
      hclear
    rcases hm : ((p.cpu.getCoresPerTopologyObj (scopeId technology) id).mapM
      (cosAssocGet p)).run s with ⟨cs, m⟩ | ⟨e, m⟩
    · rw [show (CosSearch.start s).msr = s from rfl, hm] at hloop
      obtain ⟨t, ht, htm, htu⟩ := hloop
      rw [bind_of_ok ht, bind_of_ok hm]
      obtain ⟨hout, hfin⟩ := searchUsed_run hi htu
      rw [htm] at hout hfin
      exact ⟨hout, hfin.trans ofOption_final.symm⟩
    · rw [show (CosSearch.start s).msr = s from rfl, hm] at hloop
      obtain ⟨t, ht, htm⟩ := hloop
      rw [bind_of_error ht, bind_of_error hm]
      exact ⟨rfl, htm⟩

end Refines

/-! ## Where it accesses the table -/

section Indexes

/-- Every index used so far is at most `hi`. -/
def CosSearch.Within (hi : Nat) (s : CosSearch) : Prop := ∀ i ∈ s.indexes, i ≤ hi

theorem within_frame (hi : Nat) : Frame fun s t : CosSearch => s.Within hi → t.Within hi :=
  ⟨fun _ h => h, fun h h' hs => h' (h hs)⟩

theorem markUsed_within (hi lcore : Nat) :
    Keeps (fun s t : CosSearch => s.Within hi → t.Within hi) (markUsed p hi lcore) := by
  refine Keeps.bind (within_frame hi) (Keeps.zoom (R := fun _ _ => True) (fun _ => trivial)
    fun _ _ _ h => h) fun cos => ?_
  by_cases hlt : hi < cos
  · rw [if_pos hlt]
    exact Keeps.pure (within_frame hi) _
  · rw [if_neg hlt]
    exact fun s hs => List.forall_mem_cons.2 ⟨Nat.le_of_not_lt hlt, hs⟩

theorem searchUsed_within {hi : Nat} : ∀ {cos : Nat}, cos ≤ hi →
    Keeps (fun s t : CosSearch => s.Within hi → t.Within hi) (searchUsed cos)
  | 0, _ => Keeps.throw (within_frame hi) _
  | cos + 1, hle => by
    intro s hs
    have hs' : CosSearch.Within hi { s with indexes := (cos + 1) :: s.indexes } :=
      List.forall_mem_cons.2 ⟨hle, hs⟩
    unfold searchUsed
    rw [get_bind, set_bind]
    split_ifs
    · exact searchUsed_within (Nat.le_of_succ_le hle) _ hs'
    · exact hs'

theorem searchUsed_keeps : ∀ (cos : Nat),
    Keeps (fun s t : CosSearch => s.indexes ⊆ t.indexes) (searchUsed cos)
  | 0 => fun s => List.Subset.refl s.indexes
  | cos + 1 => by
    intro s
    unfold searchUsed
    rw [get_bind, set_bind]
    split_ifs
    · exact fun i hi => searchUsed_keeps cos
        { s with indexes := (cos + 1) :: s.indexes } (List.mem_cons_of_mem _ hi)
    · exact fun i hi => List.mem_cons_of_mem _ hi

/-- The first access of the search is at the highest class. -/
theorem mem_searchUsed {hi : Nat} (h : 0 < hi) (s : CosSearch) :
    hi ∈ (final ((searchUsed hi).run s)).indexes := by
  obtain ⟨cos, rfl⟩ := Nat.exists_eq_succ_of_ne_zero (Nat.ne_of_gt h)
  unfold searchUsed
  rw [get_bind, set_bind]
  split_ifs
  · exact searchUsed_keeps cos { s with indexes := (cos + 1) :: s.indexes } List.mem_cons_self
  · exact List.mem_cons_self

/-- The indexes at which a search from the state `s` accesses the table. -/
def searchIndexes (p : Platform) (id technology : Nat) (s : Msr) : List Nat :=
  (final ((getUnusedCosTable p id technology).run (.start s))).indexes

theorem searchIndexes_le {id hi : Nat} (hhi : getHiCosId p technology = .ok hi) (s : Msr) :
    ∀ i ∈ searchIndexes p id technology s, i ≤ hi := by
  unfold searchIndexes getUnusedCosTable
  rw [bind_of_ok (ofExcept_ok.2 ⟨hhi, rfl⟩)]
  refine Keeps.bind (within_frame hi) (Keeps.forM (within_frame hi) fun lcore _ =>
    markUsed_within hi lcore) (fun _ => searchUsed_within (Nat.le_refl hi)) (.start s) ?_
  intro i hi
  cases hi

theorem searchIndexes_error {id : Nat} {e : Err} (hhi : getHiCosId p technology = .error e)
    (s : Msr) : searchIndexes p id technology s = [] := by
  unfold searchIndexes getUnusedCosTable
  rw [hhi, bind_of_error (ofExcept_error.2 ⟨rfl, rfl⟩)]
  rfl

/-- Where the associations can be read, the search gets to its first access. -/
theorem mem_searchIndexes (hp : p.Reliable) {id hi : Nat} (hhi : getHiCosId p technology = .ok hi)
    (h : 0 < hi) (s : Msr) : hi ∈ searchIndexes p id technology s := by
  have htotal : Total ((p.cpu.getCoresPerTopologyObj (scopeId technology) id).forM
      (markUsed p hi)) := by
    refine Total.forM fun core hcore u => ?_
    obtain ⟨k, ⟨hk, -⟩, rfl⟩ := mem_getCoresPerTopologyObj.1 hcore
    unfold markUsed
    rw [bind_of_ok (zoom_ok.2 ⟨_, cosAssocGet_run hp (List.mem_map_of_mem hk), rfl⟩)]
    split_ifs <;> exact ⟨_, _, rfl⟩
  obtain ⟨_, t, ht⟩ := htotal (.start s)
  unfold searchIndexes getUnusedCosTable
  rw [bind_of_ok (ofExcept_ok.2 ⟨hhi, rfl⟩), bind_of_ok ht]
  exact mem_searchUsed h t

end Indexes

/-! ## The class counts there can be -/

/-- The capabilities that discovery can report, with CDP switched any number of times since. -/
inductive Reported : Cap → Prop
  | discovered {p : Platform} {hw : Chip} {s t : Msr} {found : Cap} (i : Interface) (os : OsFiles)
      (h : (discoverCapabilities p hw).run s = .ok found t) :
      Reported (discoverOsCapabilities i os found).2
  | switched (prev next : Bool) {cap : Cap} (h : Reported cap) :
      Reported (capL3cdpChange prev next cap)

def CapItem.numClasses : CapItem → Nat
  | .mon _ => 0
  | .l3ca c => c.numClasses
  | .l2ca c => c.numClasses
  | .mba c => c.numClasses

/-- Each count is an unsigned number of 32 bits. -/
def Cap.Counts32 (cap : Cap) : Prop := ∀ c ∈ cap, c.u.numClasses < 2 ^ 32

section Items

variable {hw : Chip} {s t : Msr} {P : CapItem → Prop}

theorem detected_items {α : Type} {item : α → CapItem} {r : Except Err α} {cap : Cap}
    (h : detected item r = .ok cap) (hr : ∀ a, r = .ok a → P (item a)) : ∀ c ∈ cap, P c.u := by
  rcases detected_ok h with rfl | ⟨a, ha, rfl⟩
  · intro c hc
    cases hc
  · intro c hc
    rw [List.mem_singleton.1 hc]
    exact hr a ha

theorem osCapability_item (hmon : ∀ m, P (.mon m)) (os : OsFiles) (resctrl : Bool) {c : Capability}
    (h : P c.u) : P (osCapability os resctrl c).u := by
  rcases c with ⟨sup, u⟩
  cases u with
  | mon m => exact hmon _
  | l3ca | l2ca | mba => exact h

theorem l3cdpChange_items {prev next : Bool}
    (hswitch : ∀ c, P (.l3ca c) → P (.l3ca (c.cdpChange prev next))) : ∀ {cap : Cap},
      (∀ c ∈ cap, P c.u) → ∀ c ∈ capL3cdpChange prev next cap, P c.u
  | [], h => h
  | ⟨_, .l3ca _⟩ :: _, h => List.forall_mem_cons.2
    ⟨hswitch _ (List.forall_mem_cons.1 h).1, (List.forall_mem_cons.1 h).2⟩
  | ⟨_, .mon _⟩ :: _, h => List.forall_mem_cons.2
    ⟨(List.forall_mem_cons.1 h).1, l3cdpChange_items hswitch (List.forall_mem_cons.1 h).2⟩
  | ⟨_, .l2ca _⟩ :: _, h => List.forall_mem_cons.2
    ⟨(List.forall_mem_cons.1 h).1, l3cdpChange_items hswitch (List.forall_mem_cons.1 h).2⟩
  | ⟨_, .mba _⟩ :: _, h => List.forall_mem_cons.2
    ⟨(List.forall_mem_cons.1 h).1, l3cdpChange_items hswitch (List.forall_mem_cons.1 h).2⟩

/-- What the discovery of each technology gives, and a switch of CDP keeps, every capability that is
reported has. -/
theorem Reported.items (hmon : ∀ m, P (.mon m))
    (hl3 : ∀ p hw s c t, (discoverAllocL3 p hw).run s = .ok c t → P (.l3ca c))
    (hl2 : ∀ hw c, discoverAllocL2 hw = .ok c → P (.l2ca c))
    (hmba : ∀ hw c, discoverMba hw = .ok c → P (.mba c))
    (hswitch : ∀ prev next c, P (.l3ca c) → P (.l3ca (c.cdpChange prev next))) {cap : Cap}
    (h : Reported cap) : ∀ c ∈ cap, P c.u := by
  induction h with
  | switched prev next _ ih => exact l3cdpChange_items (hswitch prev next) ih
  | @discovered p hw s t found i os hrun =>
    have hfound : ∀ c ∈ found, P c.u := by
      obtain ⟨mon, l3, l2, mba, rfl, hdmon, hdl3, hdl2, hdmba⟩ := discoverCapabilities_ok hrun
      intro c hc
      simp only [List.mem_append] at hc
      rcases hc with ((hc | hc) | hc) | hc
      · exact detected_items hdmon (fun _ _ => hmon _) c hc
      · rcases hdl3 with rfl | ⟨c', u, hc', rfl⟩
        · cases hc
        · rw [List.mem_singleton.1 hc]
          exact hl3 _ _ _ _ _ hc'
      · exact detected_items hdl2 (fun _ => hl2 hw _) c hc
      · exact detected_items hdmba (fun _ => hmba hw _) c hc
    have hmap : ∀ resctrl, ∀ c ∈ found.map (osCapability os resctrl), P c.u := by
      intro resctrl c hc
      obtain ⟨c', hc', rfl⟩ := List.mem_map.1 hc
      exact osCapability_item hmon os resctrl (hfound c' hc')
    simp only [discoverOsCapabilities]
    split_ifs
    · exact hfound
    · exact hmap _
    · exact hmap _

end Items

section Counts32

variable {hw : Chip} {s t : Msr}

theorem onePlus_lt (v : BitVec 32) : onePlus v < 2 ^ 32 := (v + 1#32).isLt

theorem discoverAllocL3_reported {c : CapL3ca} (h : (discoverAllocL3 p hw).run s = .ok c t) :
    ∃ n, L3Reported p hw s n := by
  cases hbit : (hw.lcpuid 0x7 0).ebx.getLsbD 15 with
  | true => exact ⟨_, .cpuid hbit⟩
  | false =>
    unfold discoverAllocL3 at h
    rw [if_neg (by rw [hbit]; decide)] at h
    obtain ⟨n, u, hn, -⟩ := bind_ok.1 h
    exact ⟨n, .unlisted hbit hn⟩

theorem discoverAllocL3_lt {c : CapL3ca} (h : (discoverAllocL3 p hw).run s = .ok c t) :
    c.numClasses < 2 ^ 32 := by
  obtain ⟨n, hn⟩ := discoverAllocL3_reported h
  have hcount := discoverAllocL3_count hn h
  split_ifs at hcount <;> omega

theorem discoverAllocL2_lt {c : CapL2ca} (h : discoverAllocL2 hw = .ok c) :
    c.numClasses < 2 ^ 32 := by
  unfold discoverAllocL2 at h
  split_ifs at h
  cases h
  exact onePlus_lt _

theorem discoverMba_lt {c : CapMba} (h : discoverMba hw = .ok c) : c.numClasses < 2 ^ 32 := by
  unfold discoverMba at h
  split_ifs at h
  unfold discoverAllocMba at h
  dsimp only at h
  split_ifs at h
  cases h
  have hle : ((hw.lcpuid 0x10 3).edx &&& 0xffff#32).toNat ≤ 0xffff := by
    rw [BitVec.toNat_and]
    exact Nat.and_le_right
  show _ + 1 < _
  omega

theorem cdpChange_lt {prev next : Bool} {c : CapL3ca} (h : c.numClasses < 2 ^ 32) :
    (c.cdpChange prev next).numClasses < 2 ^ 32 := by
  unfold CapL3ca.cdpChange
  split_ifs
  · show c.numClasses / 2 < _
    omega
  · exact Nat.mod_lt _ (by decide)
  · exact h

theorem Reported.counts {cap : Cap} (h : Reported cap) : cap.Counts32 :=
  h.items (P := fun u => u.numClasses < 2 ^ 32) (fun _ => by show 0 < _; decide)
    (fun _ _ _ _ _ => discoverAllocL3_lt) (fun _ _ => discoverAllocL2_lt)
    (fun _ _ => discoverMba_lt) fun _ _ _ => cdpChange_lt

theorem CapItem.numClasses_l3 {u : CapItem} {c : CapL3ca} (h : u.l3ca? = some c) :
    u.numClasses = c.numClasses := by
  cases u <;> cases h
  rfl

theorem CapItem.numClasses_l2 {u : CapItem} {c : CapL2ca} (h : u.l2ca? = some c) :
    u.numClasses = c.numClasses := by
  cases u <;> cases h
  rfl

theorem CapItem.numClasses_mba {u : CapItem} {c : CapMba} (h : u.mba? = some c) :
    u.numClasses = c.numClasses := by
  cases u <;> cases h
  rfl

theorem Cap.Counts32.countsLe (h : p.cap.Counts32) : p.CountsLe (2 ^ 32) := by
  refine ⟨fun n hn => ?_, fun n hn => ?_, fun n hn => ?_⟩
  · obtain ⟨c, hc, rfl⟩ := l3caGetCosNum_ok.1 hn
    obtain ⟨item, hitem, hu⟩ := capGetType_mem hc
    exact Nat.le_of_lt (CapItem.numClasses_l3 hu ▸ h item hitem)
  · obtain ⟨c, hc, rfl⟩ := l2caGetCosNum_ok.1 hn
    obtain ⟨item, hitem, hu⟩ := capGetType_mem hc
    exact Nat.le_of_lt (CapItem.numClasses_l2 hu ▸ h item hitem)
  · obtain ⟨c, hc, rfl⟩ := mbaGetCosNum_ok.1 hn
    obtain ⟨item, hitem, hu⟩ := capGetType_mem hc
    exact Nat.le_of_lt (CapItem.numClasses_mba hu ▸ h item hitem)

end Counts32

/-! ## Whether it stays in the table -/

/-- A search from the state `s` accesses the table inside its bounds. -/
def SearchInBounds (p : Platform) (id technology : Nat) (s : Msr) : Prop :=
  ∀ i ∈ searchIndexes p id technology s, i < pqosMaxL3caCos

theorem le_getHiCosId_of_countsLe (hm : p.CountsLe (2 ^ 32)) {hi : Nat}
    (h : getHiCosId p technology = .ok hi) :
    pqosMaxL3caCos ≤ hi ↔ BelowCounts p technology pqosMaxL3caCos := by
  obtain ⟨n, hhi, hle, -, hb⟩ := getHiCosId_eq h
  have := hle hm
  rw [← hb, pqosMaxL3caCos]
  omega

/-- With the class counts that there can be, every search stays inside the table unless each
requested technology has more classes than the table has entries. If so, and if the associations
can be read, none does. -/
theorem searchInBounds_iff (hcap : Reported p.cap) :
    (¬ BelowCounts p technology pqosMaxL3caCos → ∀ id s, SearchInBounds p id technology s)
      ∧ (p.Reliable → ∀ id s, SearchInBounds p id technology s →
        ¬ BelowCounts p technology pqosMaxL3caCos) := by
  have hm := hcap.counts.countsLe
  refine ⟨fun hfew id s i hmem => ?_, fun hp id s hin hmany => ?_⟩
  · cases hhi : getHiCosId p technology with
    | error e =>
      rw [searchIndexes_error hhi] at hmem
      cases hmem
    | ok hi =>
      have hlt := Nat.lt_of_not_le fun hle => hfew ((le_getHiCosId_of_countsLe hm hhi).1 hle)
      exact Nat.lt_of_le_of_lt (searchIndexes_le hhi s i hmem) hlt
  · obtain ⟨hi, hhi⟩ := hmany.exists_hi
    have hle := (le_getHiCosId_of_countsLe hm hhi).2 hmany
    have hpos : 0 < hi := Nat.lt_of_lt_of_le (by decide) hle
    exact Nat.not_lt_of_le hle (hin hi (mem_searchIndexes hp hhi hpos s))

/-- The search stays in bounds whatever the processor reports. -/
def SearchesInBounds : Prop :=
  ∀ (p : Platform), Reported p.cap → ∀ technology id s, SearchInBounds p id technology s

/-- A machine with the L3 capability that discovery found on a processor. -/
def catPlatform (numClasses : Nat) : Platform := smallPlatform (catState numClasses).cap

theorem catPlatform_reported {highest : BitVec 32} {numClasses : Nat} {t : Msr}
    (h : (discoverCapabilities (smallPlatform []) (catChip highest)).run ⟨fun _ => 0, []⟩
      = .ok (catState numClasses).cap t) : Reported (catPlatform numClasses).cap :=
  .discovered .msr noFiles h

/-- Eight classes fit. -/
theorem searchInBounds_eight : Reported (catPlatform 8).cap
    ∧ SearchInBounds (catPlatform 8) 0 2 ⟨fun _ => 0, []⟩ := by
  have hrep : Reported (catPlatform 8).cap := @catPlatform_reported 7 8 _ rfl
  refine ⟨hrep, (searchInBounds_iff hrep).1 (fun h => ?_) 0 _⟩
  obtain ⟨n, hn, hlt⟩ := h.l3 (by decide)
  cases hn
  exact absurd hlt (by decide)

/-- Seventeen do not: the search begins past the end of the table. -/
theorem not_searchesInBounds : ¬ SearchesInBounds := by
  intro hin
  have h16 : 16 ∈ searchIndexes (catPlatform 17) 0 2 ⟨fun _ => 0, []⟩ := by decide
  exact absurd (hin (catPlatform 17) (@catPlatform_reported 16 17 _ rfl) 2 0 _ 16 h16)
    (by decide)

end Pqos
