import Pqos.Proofs.Assoc
import Mathlib.Order.Bounds.Basic
import Mathlib.Order.Nat

/-!
# Assigning a class to cores

The search takes the highest class that no core of the request's scope uses. When L2 is requested
the scope is the L2 cluster, even if L3 or MBA is requested with it, so a core elsewhere on the
socket may already use the class.
-/

namespace Pqos

open Prog

variable {p : Platform} {technology : Nat}

/-! ## The highest common class -/

/-- `c` is a class of every requested technology. -/
structure BelowCounts (p : Platform) (technology c : Nat) : Prop where
  l3 : l3Req technology → ∃ n, p.l3caGetCosNum = .ok n ∧ c < n
  l2 : l2Req technology → ∃ n, p.l2caGetCosNum = .ok n ∧ c < n
  mba : mbaReq technology → ∃ n, p.mbaGetCosNum = .ok n ∧ c < n

/-- No technology has more than `m` classes. -/
structure Platform.CountsLe (p : Platform) (m : Nat) : Prop where
  l3 : ∀ n, p.l3caGetCosNum = .ok n → n ≤ m
  l2 : ∀ n, p.l2caGetCosNum = .ok n → n ≤ m
  mba : ∀ n, p.mbaGetCosNum = .ok n → n ≤ m

theorem cosNumOrZero_ok {r : Except Err Nat} {n : Nat} (hn : n ≠ 0) :
    cosNumOrZero r = .ok n ↔ r = .ok n := by
  unfold cosNumOrZero
  split
  · simp [hn.symm]
  · exact Iff.rfl

/-- One step of the minimum. -/
theorem lowerCos_ok {req : Bool} {num : Except Err Nat} {m n : Nat} :
    lowerCos req num m = .ok n ↔ (req = false ∧ n = m)
      ∨ (req = true ∧ ∃ k, num = .ok k ∧ k ≠ 0 ∧ n = if m = 0 then k else min m k) := by
  unfold lowerCos
  cases req
  · simp [eq_comm]
  · rcases hk : cosNumOrZero num with e | k
    · simp only [bind, Except.bind, if_true, reduceCtorEq, false_iff, true_and, false_and, false_or]
      rintro ⟨k, hnum, h0, -⟩
      rw [(cosNumOrZero_ok h0).2 hnum] at hk
      cases hk
    · simp only [bind, Except.bind, if_true, true_and, reduceCtorEq, false_and, false_or]
      constructor
      · intro h
        split_ifs at h with h0 h1 <;> rw [Except.ok.injEq] at h
        all_goals exact ⟨k, (cosNumOrZero_ok h0).1 hk, h0, by split_ifs <;> omega⟩
      · rintro ⟨k', hnum, h0, rfl⟩
        rw [(cosNumOrZero_ok h0).2 hnum] at hk
        cases hk
        split_ifs <;> first | rfl | (congr 1; omega)

theorem lowerCos_exists {req : Bool} {num : Except Err Nat} {c : Nat} (m : Nat)
    (h : req → ∃ k, num = .ok k ∧ c < k) : ∃ n, lowerCos req num m = .ok n := by
  cases req
  · exact ⟨m, lowerCos_ok.2 (Or.inl ⟨rfl, rfl⟩)⟩
  · obtain ⟨k, hk, hc⟩ := h rfl
    exact ⟨_, lowerCos_ok.2 (Or.inr ⟨rfl, k, hk, by omega, rfl⟩)⟩

section Lower

variable {req : Bool} {num : Except Err Nat} {m n c : Nat} (h : lowerCos req num m = .ok n)
include h

theorem lowerCos_below :
    (n ≠ 0 → c < n) ↔ (m ≠ 0 → c < m) ∧ (req → ∃ k, num = .ok k ∧ c < k) := by
  rcases lowerCos_ok.1 h with ⟨rfl, rfl⟩ | ⟨rfl, k, rfl, h0, hn⟩
  · simp
  · simp only [Except.ok.injEq, exists_eq_left', forall_const]
    split_ifs at hn <;> omega

theorem lowerCos_pos : n ≠ 0 ↔ m ≠ 0 ∨ req := by
  rcases lowerCos_ok.1 h with ⟨rfl, rfl⟩ | ⟨rfl, k, rfl, h0, hn⟩
  · simp
  · simp only [or_true, iff_true]
    split_ifs at hn <;> omega

theorem lowerCos_le {b : Nat} (hk : ∀ k, num = .ok k → k ≤ b) (hm : m ≤ b) : n ≤ b := by
  rcases lowerCos_ok.1 h with ⟨-, rfl⟩ | ⟨-, k, hnum, -, hn⟩
  · exact hm
  · have := hk k hnum
    split_ifs at hn <;> omega

end Lower

theorem belowCounts_iff {c : Nat} : BelowCounts p technology c ↔
    ((l3Req technology → ∃ n, p.l3caGetCosNum = .ok n ∧ c < n)
      ∧ (l2Req technology → ∃ n, p.l2caGetCosNum = .ok n ∧ c < n))
      ∧ (mbaReq technology → ∃ n, p.mbaGetCosNum = .ok n ∧ c < n) :=
  ⟨fun h => ⟨⟨h.l3, h.l2⟩, h.mba⟩, fun h => ⟨h.1.1, h.1.2, h.2⟩⟩

theorem getHiCosId_eq {hi : Nat} (h : getHiCosId p technology = .ok hi) :
    ∃ n, hi = (n + 2 ^ 32 - 1) % 2 ^ 32 ∧ (p.CountsLe (2 ^ 32) → n ≤ 2 ^ 32)
      ∧ (n ≠ 0 ↔ l3Req technology ∨ l2Req technology ∨ mbaReq technology)
      ∧ ∀ c, (n ≠ 0 → c < n) ↔ BelowCounts p technology c := by
  unfold getHiCosId at h
  simp only [except_bind_ok, pure, Except.pure, Except.ok.injEq] at h
  obtain ⟨n₁, h₁, n₂, h₂, n, h₃, rfl⟩ := h
  refine ⟨n, rfl, fun hm => ?_, ?_, fun c => ?_⟩
  · exact lowerCos_le h₃ hm.mba (lowerCos_le h₂ hm.l2 (lowerCos_le h₁ hm.l3 (Nat.zero_le _)))
  · rw [lowerCos_pos h₃, lowerCos_pos h₂, lowerCos_pos h₁]
    tauto
  · rw [lowerCos_below h₃, lowerCos_below h₂, lowerCos_below h₁, belowCounts_iff]
    simp

theorem getHiCosId_below {hi c : Nat} (h : getHiCosId p technology = .ok hi) (hc : c ≤ hi) :
    BelowCounts p technology c ∧ c < 2 ^ 32 := by
  obtain ⟨n, hhi, -, -, hb⟩ := getHiCosId_eq h
  exact ⟨(hb c).1 fun hn => by omega, by omega⟩

/-- The highest class is the last one below every requested count. -/
theorem le_getHiCosId {hi c : Nat} (hm : p.CountsLe (2 ^ 32)) (hl2 : l2Req technology)
    (h : getHiCosId p technology = .ok hi) : c ≤ hi ↔ BelowCounts p technology c := by
  obtain ⟨n, hhi, hle, hpos, hb⟩ := getHiCosId_eq h
  have hn := hpos.2 (Or.inr (Or.inl hl2))
  have := hle hm
  rw [← hb c]
  omega

theorem BelowCounts.exists_hi {c : Nat} (h : BelowCounts p technology c) :
    ∃ hi, getHiCosId p technology = .ok hi := by
  obtain ⟨n₁, h₁⟩ := lowerCos_exists 0 h.l3
  obtain ⟨n₂, h₂⟩ := lowerCos_exists n₁ h.l2
  obtain ⟨n₃, h₃⟩ := lowerCos_exists n₂ h.mba
  refine ⟨(n₃ + 2 ^ 32 - 1) % 2 ^ 32, ?_⟩
  unfold getHiCosId
  simp only [except_bind_ok]
  exact ⟨n₁, h₁, n₂, h₂, n₃, h₃, rfl⟩

/-! ## The search -/

theorem findUnused_ok {used : List Nat} {c : Nat} :
    ∀ {hi : Nat}, findUnused used hi = some c ↔
      1 ≤ c ∧ c ≤ hi ∧ c ∉ used ∧ ∀ d, c < d → d ≤ hi → d ∈ used
  | 0 => by
    simp only [findUnused, reduceCtorEq, false_iff]
    omega
  | hi + 1 => by
    unfold findUnused
    split_ifs with h
    · rw [findUnused_ok]
      constructor
      · rintro ⟨h1, hle, hu, hd⟩
        refine ⟨h1, by omega, hu, fun d hcd hdh => ?_⟩
        rcases Nat.lt_or_ge hi d with hgt | hge
        · rwa [show d = hi + 1 by omega]
        · exact hd d hcd hge
      · rintro ⟨h1, hle, hu, hd⟩
        have hne : c ≠ hi + 1 := fun he => hu (he ▸ h)
        exact ⟨h1, by omega, hu, fun d hcd hdh => hd d hcd (by omega)⟩
    · constructor
      · rintro ⟨rfl⟩
        exact ⟨by omega, le_rfl, h, fun d hcd hdh => absurd hdh (by omega)⟩
      · rintro ⟨h1, hle, hu, hd⟩
        rcases Nat.lt_or_ge c (hi + 1) with hlt | hge
        · exact absurd (hd _ hlt le_rfl) h
        · rw [show c = hi + 1 by omega]

theorem findUnused_none {used : List Nat} :
    ∀ {hi : Nat}, findUnused used hi = none ↔ ∀ d, 1 ≤ d → d ≤ hi → d ∈ used
  | 0 => by
    simp only [findUnused, true_iff]
    omega
  | hi + 1 => by
    unfold findUnused
    split_ifs with h
    · rw [findUnused_none]
      constructor
      · intro hall d h1 hd
        rcases Nat.lt_or_ge hi d with hgt | hge
        · rwa [show d = hi + 1 by omega]
        · exact hall d h1 hge
      · exact fun hall d h1 hd => hall d h1 (by omega)
    · simp only [false_iff]
      exact fun hall => h (hall (hi + 1) (by omega) le_rfl)

/-- Cores whose classes the search for an unused class looks at. -/
def InScope (p : Platform) (technology id : Nat) (k : CoreInfo) : Prop :=
  k ∈ p.cpu.cores ∧ scopeId technology k = id

theorem mem_getCoresPerTopologyObj {id : Nat} {lcore : Nat} :
    lcore ∈ p.cpu.getCoresPerTopologyObj (scopeId technology) id
      ↔ ∃ k, InScope p technology id k ∧ k.lcore = lcore := by
  simp [CpuInfo.getCoresPerTopologyObj, InScope]

/-- The classes that the search finds in use. -/
def usedCos (p : Platform) (technology id hi : Nat) (s : Msr) : List Nat :=
  ((p.cpu.getCoresPerTopologyObj (scopeId technology) id).map s.cos).filter (· ≤ hi)

theorem mem_usedCos {id hi d : Nat} {s : Msr} (hd : d ≤ hi) : d ∈ usedCos p technology id hi s
    ↔ ∃ k, InScope p technology id k ∧ s.cos k.lcore = d := by
  rw [usedCos, List.mem_filter, List.mem_map]
  constructor
  · rintro ⟨⟨core, hcore, hcd⟩, -⟩
    obtain ⟨k, hk, rfl⟩ := mem_getCoresPerTopologyObj.1 hcore
    exact ⟨k, hk, hcd⟩
  · rintro ⟨k, hk, hkd⟩
    exact ⟨⟨k.lcore, mem_getCoresPerTopologyObj.2 ⟨k, hk, rfl⟩, hkd⟩, by simpa using hd⟩

/-- The class found is the highest that is not in use, in terms of the cores. -/
theorem findUnused_usedCos {id hi c : Nat} {s : Msr} :
    findUnused (usedCos p technology id hi s) hi = some c ↔ 1 ≤ c ∧ c ≤ hi
      ∧ (∀ k, InScope p technology id k → s.cos k.lcore ≠ c)
      ∧ ∀ d, c < d → d ≤ hi → ∃ k, InScope p technology id k ∧ s.cos k.lcore = d := by
  rw [findUnused_ok]
  refine and_congr_right fun _ => and_congr_right fun hle => and_congr ?_ ?_
  · rw [mem_usedCos hle]
    push Not
    exact Iff.rfl
  · exact forall_congr' fun d => forall_congr' fun _ => forall_congr' fun hd => mem_usedCos hd

theorem getUnusedCos_ok {id c : Nat} {s t : Msr}
    (h : (getUnusedCos p id technology).run s = .ok c t) :
    t.mem = s.mem ∧ ∃ hi, getHiCosId p technology = .ok hi ∧ 1 ≤ c ∧ c ≤ hi
      ∧ (∀ k, InScope p technology id k → s.cos k.lcore ≠ c)
      ∧ ∀ d, c < d → d ≤ hi → ∃ k, InScope p technology id k ∧ s.cos k.lcore = d := by
  unfold getUnusedCos at h
  simp only [bind_ok, ofExcept_ok, ofOption_ok] at h
  obtain ⟨hi, _, ⟨hhi, rfl⟩, used, s', hused, hfind, rfl⟩ := h
  obtain ⟨rfl, hmem⟩ := mapM_ok_of_reads Msr.mem (fun m k => cosOf (m (.core k msrAssoc)))
    (fun k s c t h => cosAssocGet_ok h) hused
  exact ⟨hmem, hi, hhi, findUnused_usedCos.1 hfind⟩

/-- Where no access fails, all that is left of the search is to look through the classes. -/
theorem getUnusedCos_eq (hp : p.Reliable) {hi : Nat} (hhi : getHiCosId p technology = .ok hi)
    (id : Nat) (s : Msr) : ∃ t, t.mem = s.mem ∧ (getUnusedCos p id technology).run s
      = (ofOption .resource (findUnused (usedCos p technology id hi s) hi) :
          EStateM Err Msr Nat).run t := by
  have htotal : Total ((p.cpu.getCoresPerTopologyObj (scopeId technology) id).mapM
      (cosAssocGet p)) := by
    refine Total.mapM fun core hcore s => ⟨_, _, cosAssocGet_run hp ?_⟩
    obtain ⟨k, ⟨hk, -⟩, rfl⟩ := mem_getCoresPerTopologyObj.1 hcore
    exact List.mem_map_of_mem hk
  obtain ⟨used, t, hused⟩ := htotal s
  obtain ⟨rfl, hmem⟩ := mapM_ok_of_reads Msr.mem (fun m k => cosOf (m (.core k msrAssoc)))
    (fun k s c t h => cosAssocGet_ok h) hused
  refine ⟨t, hmem, ?_⟩
  unfold getUnusedCos
  rw [bind_of_ok (ofExcept_ok.2 ⟨hhi, rfl⟩), bind_of_ok hused]
  rfl

theorem getUnusedCos_run (hp : p.Reliable) {id hi c : Nat} {s : Msr}
    (hhi : getHiCosId p technology = .ok hi) (h1 : 1 ≤ c) (hle : c ≤ hi)
    (hfree : ∀ k, InScope p technology id k → s.cos k.lcore ≠ c)
    (hmax : ∀ d, c < d → d ≤ hi → ∃ k, InScope p technology id k ∧ s.cos k.lcore = d) :
    ∃ t, (getUnusedCos p id technology).run s = .ok c t := by
  obtain ⟨t, -, hrun⟩ := getUnusedCos_eq hp hhi id s
  exact ⟨t, hrun.trans (ofOption_ok.2 ⟨findUnused_usedCos.2 ⟨h1, hle, hfree, hmax⟩, rfl⟩)⟩

/-! ## One entity -/

/-- Every core of the array is in the topology, under the id `id`. -/
def OnEntity (p : Platform) (technology id : Nat) (coreArray : List Nat) : Prop :=
  ∀ core ∈ coreArray, ∃ k, InScope p technology id k ∧ k.lcore = core

theorem oneEntity_ok : ∀ {coreArray : List Nat} {id : Nat} {r : Option Nat},
    oneEntity p technology (some id) coreArray = .ok r ↔
      r = some id ∧ OnEntity p technology id coreArray
  | [], id, r => by
    simp [oneEntity, OnEntity, eq_comm]
  | core :: l, id, r => by
    unfold oneEntity
    rcases hk : p.cpu.getCoreInfo core with _ | k
    · simp only [reduceCtorEq, false_iff, not_and]
      intro _ h
      obtain ⟨k, ⟨hmem, -⟩, rfl⟩ := h core List.mem_cons_self
      rw [CpuInfo.getCoreInfo_of_mem hmem] at hk
      cases hk
    · obtain ⟨hmem, rfl⟩ := CpuInfo.getCoreInfo_mem hk
      simp only [reduceCtorEq, Option.some.injEq, false_or]
      split_ifs with hid
      · rw [oneEntity_ok, ← hid]
        unfold OnEntity
        rw [List.forall_mem_cons]
        exact and_congr_right fun _ => (and_iff_right ⟨k, ⟨hmem, hid.symm⟩, rfl⟩).symm
      · simp only [false_iff, not_and]
        intro _ h
        obtain ⟨k', ⟨hmem', rfl⟩, hkk⟩ := h _ List.mem_cons_self
        rw [List.inj_on_of_nodup_map p.cpu.nodup hmem' hmem hkk] at hid
        exact hid rfl

theorem oneEntity_none {core : Nat} {l : List Nat} {r : Option Nat} :
    oneEntity p technology none (core :: l) = .ok r ↔
      ∃ id, r = some id ∧ OnEntity p technology id (core :: l) := by
  rcases hk : p.cpu.getCoreInfo core with _ | k
  · simp only [oneEntity, hk, reduceCtorEq, false_iff, not_exists, not_and]
    intro id _ h
    obtain ⟨k, ⟨hmem, -⟩, rfl⟩ := h core List.mem_cons_self
    rw [CpuInfo.getCoreInfo_of_mem hmem] at hk
    cases hk
  · have heq : oneEntity p technology none (core :: l)
        = oneEntity p technology (some (scopeId technology k)) (core :: l) := by
      simp [oneEntity, hk]
    rw [heq, oneEntity_ok]
    refine ⟨fun h => ⟨_, h⟩, fun ⟨id, hr, h⟩ => ?_⟩
    obtain ⟨k', ⟨hmem, hid⟩, hkk⟩ := h core List.mem_cons_self
    rw [← hkk, CpuInfo.getCoreInfo_of_mem hmem] at hk
    cases hk
    rw [hid]
    exact ⟨hr, h⟩

/-! ## The call -/

section Assign

variable {coreArray : List Nat} {c : Nat} {s t : Msr}

theorem hwAllocAssign_ok (h : (hwAllocAssign p technology coreArray).run s = .ok c t) :
    ∃ id hi, OnEntity p technology id coreArray ∧ getHiCosId p technology = .ok hi
      ∧ 1 ≤ c ∧ c ≤ hi ∧ (∀ k, InScope p technology id k → s.cos k.lcore ≠ c)
      ∧ (∀ d, c < d → d ≤ hi → ∃ k, InScope p technology id k ∧ s.cos k.lcore = d)
      ∧ Moved coreArray c s t := by
  unfold hwAllocAssign at h
  simp only [bind_ok, ofExcept_ok, EStateM.run_pure, EStateM.Result.ok.injEq] at h
  obtain ⟨r, _, ⟨hr, rfl⟩, _, s', hu, _, t', hset, rfl, rfl⟩ := h
  obtain ⟨hmem, hi, hhi, h1, hle, hfree, hmax⟩ := getUnusedCos_ok hu
  refine ⟨r.getD 0, hi, ?_, hhi, h1, hle, hfree, hmax, (cosAssocSet_forM hset).of_mem hmem⟩
  match coreArray, hr with
  | [], _ => exact fun core hcore => absurd hcore List.not_mem_nil
  | core :: l, hr =>
    obtain ⟨id, rfl, hid⟩ := oneEntity_none.1 hr
    exact hid

/-- Where no access fails, an array of cores of one entity gets the highest free class. -/
theorem hwAllocAssign_run (hp : p.Reliable) (id : Nat) {hi : Nat} (hne : coreArray ≠ [])
    (hid : OnEntity p technology id coreArray) (hhi : getHiCosId p technology = .ok hi)
    (h1 : 1 ≤ c) (hle : c ≤ hi) (hfree : ∀ k, InScope p technology id k → s.cos k.lcore ≠ c)
    (hmax : ∀ d, c < d → d ≤ hi → ∃ k, InScope p technology id k ∧ s.cos k.lcore = d) :
    ∃ t, (hwAllocAssign p technology coreArray).run s = .ok c t := by
  have hr : oneEntity p technology none coreArray = .ok (some id) := by
    obtain ⟨core, l, rfl⟩ := List.exists_cons_of_ne_nil hne
    exact oneEntity_none.2 ⟨id, rfl, hid⟩
  obtain ⟨s', hu⟩ := getUnusedCos_run hp hhi h1 hle hfree hmax
  have htotal : Total (coreArray.forM fun core => cosAssocSet p core c) := by
    refine Total.forM fun core hcore => cosAssocSet_total hp ?_
    obtain ⟨k, ⟨hk, -⟩, rfl⟩ := hid core hcore
    exact List.mem_map_of_mem hk
  obtain ⟨_, t, ht⟩ := htotal s'
  refine ⟨t, ?_⟩
  unfold hwAllocAssign
  rw [bind_of_ok (ofExcept_ok.2 ⟨hr, rfl⟩), Option.getD_some, bind_of_ok hu, bind_of_ok ht]
  rfl

/-! ## A class nothing shares -/

/-- The cores `a` and `k` share a resource of a requested technology. -/
def Shares (p : Platform) (technology a k : Nat) : Prop :=
  ∃ ca ∈ p.cpu.cores, ∃ ck ∈ p.cpu.cores, ca.lcore = a ∧ ck.lcore = k
    ∧ ((l2Req technology ∧ ck.l2Id = ca.l2Id)
      ∨ ((l3Req technology ∨ mbaReq technology) ∧ ck.socket = ca.socket))

/-- An assignment that succeeds gives the cores of the array, and no other, a class between 1 and
the smallest requested count that no core sharing a requested resource with them had. -/
def AssignsUnshared (p : Platform) (technology : Nat) (coreArray : List Nat) (s : Msr) : Prop :=
  ∀ c t, (hwAllocAssign p technology coreArray).run s = .ok c t →
    1 ≤ c ∧ BelowCounts p technology c
      ∧ (∀ a ∈ coreArray, ∀ k, Shares p technology a k → s.cos k ≠ c)
      ∧ (∀ a ∈ coreArray, t.cos a = c) ∧ ∀ k, k ∉ coreArray → t.cos k = s.cos k

/-- L2 is requested with L3 or MBA, and the highest class that is free on the L2 cluster of the
array is in use on a socket of it. -/
def SocketClash (p : Platform) (technology : Nat) (coreArray : List Nat) (s : Msr) : Prop :=
  l2Req technology ∧ (l3Req technology ∨ mbaReq technology) ∧ ∃ l2id c,
    (∀ a ∈ coreArray, ∃ ca ∈ p.cpu.cores, ca.lcore = a ∧ ca.l2Id = l2id)
    ∧ IsGreatest {c | 1 ≤ c ∧ BelowCounts p technology c
        ∧ ∀ ck ∈ p.cpu.cores, ck.l2Id = l2id → s.cos ck.lcore ≠ c} c
    ∧ ∃ ca ∈ p.cpu.cores, ∃ ck ∈ p.cpu.cores,
        ca.lcore ∈ coreArray ∧ ck.socket = ca.socket ∧ s.cos ck.lcore = c

theorem inScope_l2 (hl2 : l2Req technology) {id : Nat} {k : CoreInfo} :
    InScope p technology id k ↔ k ∈ p.cpu.cores ∧ k.l2Id = id := by
  simp [InScope, scopeId, hl2]

theorem inScope_socket (hl2 : ¬ l2Req technology) {id : Nat} {k : CoreInfo} :
    InScope p technology id k ↔ k ∈ p.cpu.cores ∧ k.socket = id := by
  simp [InScope, scopeId, hl2]

/-- What holds of every assignment that succeeds: only the socket may be shared. -/
theorem assignsUnshared_of_not_clash (hm : p.CountsLe (2 ^ 32))
    (hclash : ¬ SocketClash p technology coreArray s) :
    AssignsUnshared p technology coreArray s := by
  intro c t h
  obtain ⟨id, hi, hid, hhi, h1, hle, hfree, hmax, hmoved⟩ := hwAllocAssign_ok h
  obtain ⟨hbelow, hlt⟩ := getHiCosId_below hhi hle
  refine ⟨h1, hbelow, ?_, fun a ha => hmoved.cos hlt ha, fun k hk => hmoved.cos_other hk⟩
  rintro a ha k ⟨ca, hca, ck, hck, rfl, rfl, hshare⟩ hcos
  obtain ⟨ca', hca', hcaa⟩ := hid _ ha
  obtain rfl : ca' = ca := List.inj_on_of_nodup_map p.cpu.nodup hca'.1 hca hcaa
  by_cases hl2 : l2Req technology
  · simp only [inScope_l2 hl2] at hfree hmax hca'
    rcases hshare with ⟨-, hck2⟩ | ⟨hreq, hsock⟩
    · exact hfree ck ⟨hck, hck2.trans hca'.2⟩ hcos
    · refine hclash ⟨hl2, hreq, id, c, fun a ha => ?_, ⟨⟨h1, hbelow, ?_⟩, ?_⟩,
        ca', hca, ck, hck, ha, hsock, hcos⟩
      · obtain ⟨k, hk, rfl⟩ := hid a ha
        exact ⟨k, hk.1, rfl, ((inScope_l2 hl2).1 hk).2⟩
      · exact fun k hk hk2 => hfree k ⟨hk, hk2⟩
      · rintro d ⟨-, hdb, hdfree⟩
        by_contra hlt
        obtain ⟨k, ⟨hk, hk2⟩, hkd⟩ := hmax d (by omega) ((le_getHiCosId hm hl2 hhi).2 hdb)
        exact hdfree k hk hk2 hkd
  · simp only [inScope_socket hl2] at hfree hca'
    rcases hshare with ⟨hl2', -⟩ | ⟨-, hsock⟩
    · exact hl2 hl2'
    · exact hfree ck ⟨hck, hsock.trans hca'.2⟩ hcos

/-- On a clash the search, looking at the L2 cluster alone, takes the class of the other core. -/
theorem not_clash_of_assignsUnshared (hp : p.Reliable) (hm : p.CountsLe (2 ^ 32))
    (h : AssignsUnshared p technology coreArray s) : ¬ SocketClash p technology coreArray s := by
  rintro ⟨hl2, hreq, id, c, hid, ⟨⟨h1, hbelow, hfree⟩, hmax⟩, ca, hca, ck, hck, ha, hsock, hcos⟩
  obtain ⟨hi, hhi⟩ := hbelow.exists_hi
  have hle := le_getHiCosId (c := c) hm hl2 hhi
  obtain ⟨t, ht⟩ : ∃ t, (hwAllocAssign p technology coreArray).run s = .ok c t := by
    refine hwAllocAssign_run hp id (List.ne_nil_of_mem ha) (fun a ha => ?_) hhi h1
      (hle.2 hbelow) ?_ ?_
    · obtain ⟨k, hk, rfl, hk2⟩ := hid a ha
      exact ⟨k, (inScope_l2 hl2).2 ⟨hk, hk2⟩, rfl⟩
    · intro k hk
      obtain ⟨hk, hk2⟩ := (inScope_l2 hl2).1 hk
      exact hfree k hk hk2
    · intro d hcd hdh
      by_contra hno
      push Not at hno
      have := hmax ⟨by omega, (le_getHiCosId hm hl2 hhi).1 hdh,
        fun k hk hk2 => hno k ((inScope_l2 hl2).2 ⟨hk, hk2⟩)⟩
      omega
  obtain ⟨-, -, hshare, -, -⟩ := h c t ht
  exact hshare ca.lcore ha ck.lcore ⟨ca, hca, ck, hck, rfl, rfl, Or.inr ⟨hreq, hsock⟩⟩ hcos

/-- The class given is unshared exactly when there is no clash on the socket; that a clash leads
to a shared class needs register accesses to succeed, for the call might fail otherwise. -/
theorem hwAllocAssign_unshared (hm : p.CountsLe 16) :
    (¬ SocketClash p technology coreArray s → AssignsUnshared p technology coreArray s)
      ∧ (p.Reliable → AssignsUnshared p technology coreArray s →
        ¬ SocketClash p technology coreArray s) := by
  have hm' : p.CountsLe (2 ^ 32) :=
    ⟨fun n hn => (hm.l3 n hn).trans (by decide), fun n hn => (hm.l2 n hn).trans (by decide),
      fun n hn => (hm.mba n hn).trans (by decide)⟩
  exact ⟨assignsUnshared_of_not_clash hm', fun hp => not_clash_of_assignsUnshared hp hm'⟩

end Assign

/-- Core 0 asks for a class of L2 and L3 while core 1, on its socket but in another L2 cluster, is
in class 3. -/
def clashState : Msr := ⟨fun l => if l = .core 1 msrAssoc then withCos 0 3 else 0, []⟩

def clashPlatform : Platform :=
  smallPlatform [⟨true, .l3ca ⟨4, 11, 0, false, false⟩⟩, ⟨true, .l2ca ⟨4, 8, 0⟩⟩]

theorem clashPlatform_countsLe : clashPlatform.CountsLe 16 := by
  refine ⟨fun n h => ?_, fun n h => ?_, fun n h => ?_⟩ <;> cases h <;> decide

theorem hwAllocAssign_unshared_small :
    (¬ SocketClash clashPlatform 2 [0] clashState
        → AssignsUnshared clashPlatform 2 [0] clashState)
      ∧ (clashPlatform.Reliable → AssignsUnshared clashPlatform 2 [0] clashState
        → ¬ SocketClash clashPlatform 2 [0] clashState) :=
  hwAllocAssign_unshared clashPlatform_countsLe

/-- Core 0 gets class 3 for its L3, which it shares with core 1. -/
theorem hwAllocAssign_clash : ¬ AssignsUnshared clashPlatform 6 [0] clashState := by
  intro h
  have hrun : (hwAllocAssign clashPlatform 6 [0]).run clashState
      = .ok 3 (final ((hwAllocAssign clashPlatform 6 [0]).run clashState)) := rfl
  obtain ⟨-, -, hshare, -⟩ := h 3 _ hrun
  refine hshare 0 (by simp) 1 ⟨⟨0, 0, 0, 0⟩, by decide, ⟨1, 0, 0, 1⟩, by decide, rfl, rfl, ?_⟩ rfl
  decide

end Pqos
