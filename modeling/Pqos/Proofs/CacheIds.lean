import Pqos.Apic
import Mathlib.Data.Nat.Log
import Mathlib.Order.Bounds.Basic
import Mathlib.Tactic.IntervalCases

/-!
# Who is taken to share a cache

Two processors have one cache id if their APIC ids are the same above as many bits as the cache's
sharing count is said to need. The number of bits is that of the least power of two which is not
below the count, but for a count of 1: a cache of one processor is given a bit as well, so it is
taken to be shared with the neighbour.
-/

namespace Pqos

open While

/-! ## Counting bits -/

section Bits

variable {n p rounds : Nat}

theorem nearestPow2From_eq (hrounds : p + rounds = 32) (hp : p ≤ Nat.clog 2 n)
    (hn : Nat.clog 2 n ≤ 32) :
    nearestPow2From n rounds (BitVec.ofNat 32 (2 ^ p)) p = Nat.clog 2 n := by
  induction rounds generalizing p with
  | zero =>
    rw [nearestPow2From]
    omega
  | succ rounds ih =>
    have hpow : 2 ^ p < 2 ^ 32 := Nat.pow_lt_pow_right (by decide) (by omega)
    have hr : (BitVec.ofNat 32 (2 ^ p)).toNat = 2 ^ p := by
      rw [BitVec.toNat_ofNat, Nat.mod_eq_of_lt hpow]
    have hne : BitVec.ofNat 32 (2 ^ p) ≠ 0 := by
      intro h0
      have hpos : 0 < 2 ^ p := Nat.two_pow_pos p
      rw [h0] at hr
      exact absurd hr hpos.ne
    have hnext : BitVec.ofNat 32 (2 ^ p) <<< 1 = BitVec.ofNat 32 (2 ^ (p + 1)) := by
      refine BitVec.eq_of_toNat_eq ?_
      rw [BitVec.toNat_shiftLeft, hr, BitVec.toNat_ofNat, Nat.shiftLeft_eq, Nat.pow_succ 2 p,
        Nat.pow_one]
    rw [nearestPow2From, hr, hnext]
    by_cases hle : n ≤ 2 ^ p
    · rw [if_pos (Or.inr hle)]
      exact Nat.le_antisymm hp (Nat.clog_le_of_le_pow hle)
    · have hlt : p < Nat.clog 2 n := (Nat.lt_clog_iff_pow_lt (by decide)).2 (by omega)
      rw [if_neg (not_or.2 ⟨hne, hle⟩), ih (by omega) hlt]

/-- From 2 on the loop finds the number of bits. -/
theorem nearestPow2_eq (h : 2 ≤ n) (hn : n ≤ 2 ^ 32) : nearestPow2 n = Nat.clog 2 n := by
  rw [nearestPow2, if_neg (by omega)]
  exact nearestPow2From_eq (p := 0) rfl (Nat.zero_le _) (Nat.clog_le_of_le_pow hn)

theorem isLeast_clog (n : Nat) : IsLeast {p | n ≤ 2 ^ p} (Nat.clog 2 n) :=
  ⟨Nat.le_pow_clog (by decide) n, fun _ hp => Nat.clog_le_of_le_pow hp⟩

theorem nearestPow2_isLeast_iff (h : 1 ≤ n) (hn : n ≤ 2 ^ 32) :
    IsLeast {p | n ≤ 2 ^ p} (nearestPow2 n) ↔ n ≠ 1 := by
  constructor
  · rintro hleast rfl
    have hzero := hleast.unique (isLeast_clog 1)
    rw [Nat.clog_one_right] at hzero
    cases hzero
  · intro hne
    rw [nearestPow2_eq (by omega) hn]
    exact isLeast_clog n

/-- No count is given no bits, so a shift of 0 means that there is no cache. -/
theorem nearestPow2_ne_zero (h : 1 ≤ n) (hn : n ≤ 2 ^ 32) : nearestPow2 n ≠ 0 := by
  rcases Nat.eq_or_lt_of_le h with rfl | hlt
  · decide
  · rw [nearestPow2_eq hlt hn]
    exact (Nat.clog_pos (by decide) hlt).ne'

end Bits

theorem cacheSharing_bounds (leaf4 : CpuidOut) :
    1 ≤ cacheSharing leaf4 ∧ cacheSharing leaf4 ≤ 2 ^ 12 := by
  have hand : ((leaf4.eax >>> 14) &&& 0xfff#32).toNat ≤ 0xfff := by
    rw [BitVec.toNat_and]
    exact Nat.and_le_right
  unfold cacheSharing
  omega

/-! ## The loop over the caches -/

/-- CPUID lists a cache of a level that so many processors share. -/
def ListsCache (hw : Cpuid) (level n : Nat) : Prop :=
  ∃ round, (∀ r ≤ round, moreCaches hw r = true)
    ∧ cacheLevel (leaf4 hw round) = level ∧ cacheSharing (leaf4 hw round) = n

/-- What holds before each round: a level has a shift if it was listed, and the shift is that of one
of its caches. -/
structure ScanInv (hw : Cpuid) (s : CacheScan) : Prop where
  more : ∀ r < s.subleaf, moreCaches hw r = true
  found : ∀ r < s.subleaf, cacheLevel (leaf4 hw r) < 4 →
    s.cacheLevelShift (cacheLevel (leaf4 hw r)) ≠ 0
  shift : ∀ level, s.cacheLevelShift level ≠ 0 → ∃ r < s.subleaf, cacheLevel (leaf4 hw r) = level
    ∧ s.cacheLevelShift level = nearestPow2 (cacheSharing (leaf4 hw r))

section Scan

variable {hw : Cpuid} {s : CacheScan} {level n : Nat}

theorem ListsCache.bounds (h : ListsCache hw level n) : 1 ≤ n ∧ n ≤ 2 ^ 12 := by
  obtain ⟨round, -, -, rfl⟩ := h
  exact cacheSharing_bounds _

theorem scanCache_inv (h : ScanInv hw s) (hmore : moreCaches hw s.subleaf = true) :
    ScanInv hw (scanCache hw s) := by
  have hnew : nearestPow2 (cacheSharing (leaf4 hw s.subleaf)) ≠ 0 := by
    have hbounds := cacheSharing_bounds (leaf4 hw s.subleaf)
    exact nearestPow2_ne_zero hbounds.1 (by omega)
  have hshift : (scanCache hw s).cacheLevelShift
      = if cacheLevel (leaf4 hw s.subleaf) < 4
        then Function.update s.cacheLevelShift (cacheLevel (leaf4 hw s.subleaf))
          (nearestPow2 (cacheSharing (leaf4 hw s.subleaf)))
        else s.cacheLevelShift := rfl
  refine ⟨fun r hr => ?_, fun r hr hlevel => ?_, fun level hne => ?_⟩
  · rcases Nat.eq_or_lt_of_le (Nat.le_of_lt_succ hr) with rfl | hlt
    · exact hmore
    · exact h.more r hlt
  · rw [hshift]
    rcases Nat.eq_or_lt_of_le (Nat.le_of_lt_succ hr) with rfl | hlt
    · rwa [if_pos hlevel, Function.update_self]
    · split_ifs
      · rw [Function.update_apply]
        split_ifs
        · exact hnew
        · exact h.found r hlt hlevel
      · exact h.found r hlt hlevel
  · have hold : s.cacheLevelShift level ≠ 0 → ∃ r < s.subleaf + 1, cacheLevel (leaf4 hw r) = level
        ∧ s.cacheLevelShift level = nearestPow2 (cacheSharing (leaf4 hw r)) := fun hne => by
      obtain ⟨r, hr, hread⟩ := h.shift level hne
      exact ⟨r, Nat.lt_succ_of_lt hr, hread⟩
    rw [hshift] at hne ⊢
    split_ifs at hne ⊢
    · rw [Function.update_apply] at hne ⊢
      split_ifs at hne ⊢ with heq
      · exact ⟨s.subleaf, Nat.lt_succ_self _, heq.symm, rfl⟩
      · exact hold hne
    · exact hold hne

/-- The loop is left with a result exactly if it is left. -/
theorem cacheScan_iff_ends :
    cacheScan hw = some s
      ↔ Ends (fun s => moreCaches hw s.subleaf) (scanCache hw) noCaches s := by
  unfold cacheScan
  refine (ends_iff_run (c := CacheScan.subleaf) (P := fun r => moreCaches hw r)
    (by decide) (fun s => ?_) fun s => rfl).symm
  unfold moreCaches leaf4
  rw [Nat.mod_mod]

theorem cacheScan_inv (h : cacheScan hw = some s) :
    ScanInv hw s ∧ moreCaches hw s.subleaf = false :=
  (cacheScan_iff_ends.1 h).inv (fun _ hI hmore => scanCache_inv hI hmore)
    ⟨fun r hr => absurd hr (Nat.not_lt_zero r), fun r hr => absurd hr (Nat.not_lt_zero r),
      fun _ hne => absurd rfl hne⟩

/-- A level that is listed has the shift of one of its caches. -/
theorem ListsCache.shift (h : ListsCache hw level n) (hlevel : level < 4)
    (hs : cacheScan hw = some s) :
    s.cacheLevelShift level ≠ 0
      ∧ ∃ m, ListsCache hw level m ∧ s.cacheLevelShift level = nearestPow2 m := by
  obtain ⟨hinv, hend⟩ := cacheScan_inv hs
  obtain ⟨round, hread, rfl, -⟩ := h
  have hround : round < s.subleaf := by
    by_contra hge
    rw [hread s.subleaf (by omega)] at hend
    cases hend
  have hne := hinv.found round hround hlevel
  obtain ⟨r, hr, hlev, hshift⟩ := hinv.shift _ hne
  exact ⟨hne, _, ⟨r, fun r' hr' => hinv.more r' (by omega), hlev, rfl⟩, hshift⟩

end Scan

theorem detectApicMasks_ok {hw : Cpuid} {apic : ApicInfo} {l2 l3 : CacheInfo}
    (h : detectApicMasks hw = .ok (apic, l2, l3)) :
    ∃ s, cacheScan hw = some s ∧ apic.l2Shift = s.cacheLevelShift 2
      ∧ (s.cacheLevelShift 3 ≠ 0 → apic.l3Shift = s.cacheLevelShift 3) := by
  unfold detectApicMasks at h
  split at h
  · cases h
  · split at h
    · cases h
    · next s hs =>
      by_cases hfail : s.cacheLevelShift 2 = 0 ∨ s.cacheLevelShift 1 = 0
      · rw [if_pos hfail] at h
        cases h
      · rw [if_neg hfail] at h
        cases h
        exact ⟨s, hs, rfl, fun hne => if_neg hne⟩

/-! ## Cache ids -/

/-- Two processors have one id if and only if their APIC ids are the same above the bits that number
`n` sharers. -/
def SharersMatch (apic : ApicInfo) (id : CoreInfo → Nat) (n : Nat) : Prop :=
  ∀ (affinity : Affinity) (i j : Nat) (a b : BitVec 32) (c d : CoreInfo),
    affinity i = some a → affinity j = some b →
    detectCpu apic affinity i = some c → detectCpu apic affinity j = some d →
      (id c = id d ↔ ∀ k, Nat.clog 2 n ≤ k → a.getLsbD k = b.getLsbD k)

theorem ushiftRight_toNat_inj {a b : BitVec 32} {shift : Nat} :
    (a >>> shift).toNat = (b >>> shift).toNat ↔ ∀ k, shift ≤ k → a.getLsbD k = b.getLsbD k := by
  rw [BitVec.toNat_inj]
  constructor
  · intro h k hk
    have hbit := congrArg (fun x => x.getLsbD (k - shift)) h
    simpa only [BitVec.getLsbD_ushiftRight, Nat.add_sub_cancel' hk] using hbit
  · intro h
    refine BitVec.eq_of_getLsbD_eq fun k _ => ?_
    rw [BitVec.getLsbD_ushiftRight, BitVec.getLsbD_ushiftRight]
    exact h _ (Nat.le_add_right _ _)

/-- Ids that differ in one bit are the same above it. -/
theorem zero_twoPow_agree {m q : Nat} (hm : m < 32) :
    (∀ k, q ≤ k → (0#32).getLsbD k = (BitVec.twoPow 32 m).getLsbD k) ↔ m < q := by
  simp only [BitVec.getLsbD_zero, BitVec.getLsbD_twoPow, decide_eq_true hm, Bool.true_and]
  constructor
  · intro h
    by_contra hge
    have hbit := h m (by omega)
    rw [decide_eq_true rfl] at hbit
    cases hbit
  · intro hlt k hk
    rw [decide_eq_false (by omega)]

/-- Sharers are told from others by shifting out just the bits that number them. -/
theorem sharersMatch_iff {apic : ApicInfo} {id : CoreInfo → Nat} {n shift : Nat}
    (hid : ∀ (affinity : Affinity) (cpu : Nat) (a : BitVec 32), affinity cpu = some a →
      (detectCpu apic affinity cpu).map id = some (a >>> shift).toNat)
    (hshift : shift < 32) (hn : Nat.clog 2 n < 32) :
    SharersMatch apic id n ↔ shift = Nat.clog 2 n := by
  constructor
  · intro h
    have hone : ∀ m < 32, (m < shift ↔ m < Nat.clog 2 n) := by
      intro m hm
      -- one processor has the id 0, all others have bit `m`
      let affinity : Affinity := fun cpu => some (if cpu = 0 then 0#32 else BitVec.twoPow 32 m)
      have hc := hid affinity 0 _ rfl
      have hd := hid affinity 1 _ rfl
      rw [Option.map_eq_some_iff] at hc hd
      obtain ⟨c, hdc, hc⟩ := hc
      obtain ⟨d, hdd, hd⟩ := hd
      have hmatch := h affinity 0 1 _ _ c d rfl rfl hdc hdd
      rw [hc, hd, ushiftRight_toNat_inj] at hmatch
      exact (zero_twoPow_agree hm).symm.trans (hmatch.trans (zero_twoPow_agree hm))
    have hle := hone (Nat.clog 2 n) hn
    have hge := hone shift hshift
    omega
  · rintro rfl affinity i j a b c d ha hb hc hd
    have hidc := hid affinity i a ha
    have hidd := hid affinity j b hb
    rw [hc, Option.map_some, Option.some.injEq] at hidc
    rw [hd, Option.map_some, Option.some.injEq] at hidd
    rw [hidc, hidd, ushiftRight_toNat_inj]

/-- What is said of a cache of a level that `n` processors share. -/
structure CacheIdsRight (apic : ApicInfo) (level n : Nat) : Prop where
  least : IsLeast {p | n ≤ 2 ^ p} (nearestPow2 n)
  l2 : level = 2 → SharersMatch apic CoreInfo.l2Id n
  l3 : level = 3 → SharersMatch apic CoreInfo.l3Id n

theorem ListsCache.clog_lt {hw : Cpuid} {level n : Nat} (h : ListsCache hw level n) :
    Nat.clog 2 n < 32 := by
  have hle := Nat.clog_le_of_le_pow h.bounds.2
  omega

theorem ListsCache.nearestPow2_lt {hw : Cpuid} {level n : Nat} (h : ListsCache hw level n) :
    nearestPow2 n < 32 := by
  have hbounds := h.bounds
  rcases Nat.eq_or_lt_of_le hbounds.1 with rfl | hlt
  · decide
  · rw [nearestPow2_eq hlt (by omega)]
    exact h.clog_lt

/-! ## The ids of a level -/

/-- The ids of a level are made by shifting out as many bits as one of its caches is given. -/
structure LevelIds (hw : Cpuid) (apic : ApicInfo) (level : Nat) (id : CoreInfo → Nat)
    (shift : Nat) :
    Prop where
  ids : ∀ (affinity : Affinity) (cpu : Nat) (a : BitVec 32), affinity cpu = some a →
    (detectCpu apic affinity cpu).map id = some (a >>> shift).toNat
  listed : ∀ n, ListsCache hw level n → ∃ m, ListsCache hw level m ∧ shift = nearestPow2 m

namespace LevelIds

variable {hw : Cpuid} {apic : ApicInfo} {l2 l3 : CacheInfo} {level n shift : Nat}
  {id : CoreInfo → Nat}

theorem of_l2 (h : detectApicMasks hw = .ok (apic, l2, l3)) :
    LevelIds hw apic 2 CoreInfo.l2Id apic.l2Shift := by
  obtain ⟨s, hs, hl2, -⟩ := detectApicMasks_ok h
  refine ⟨fun affinity cpu a ha => ?_, fun n hlist => ?_⟩
  · rw [detectCpu, ha]
    rfl
  · obtain ⟨-, m, hm, hshift⟩ := hlist.shift (by decide) hs
    exact ⟨m, hm, hl2.trans hshift⟩

theorem of_l3 (h : detectApicMasks hw = .ok (apic, l2, l3)) :
    LevelIds hw apic 3 CoreInfo.l3Id apic.l3Shift := by
  obtain ⟨s, hs, -, hl3⟩ := detectApicMasks_ok h
  refine ⟨fun affinity cpu a ha => ?_, fun n hlist => ?_⟩
  · rw [detectCpu, ha]
    rfl
  · obtain ⟨hne, m, hm, hshift⟩ := hlist.shift (by decide) hs
    exact ⟨m, hm, (hl3 hne).trans hshift⟩

variable (hids : LevelIds hw apic level id shift)

include hids

theorem match_iff (hlist : ListsCache hw level n) :
    SharersMatch apic id n ↔ shift = Nat.clog 2 n := by
  obtain ⟨m, hm, hshift⟩ := hids.listed n hlist
  exact sharersMatch_iff hids.ids (hshift ▸ hm.nearestPow2_lt) hlist.clog_lt

/-- Where no cache has one processor only, the ids are right for all caches of the level if and only
if these agree in the number of bits. -/
theorem forall_match_iff (hone : ∀ n, ListsCache hw level n → n ≠ 1) :
    (∀ n, ListsCache hw level n → SharersMatch apic id n)
      ↔ ∀ n m, ListsCache hw level n → ListsCache hw level m → Nat.clog 2 n = Nat.clog 2 m := by
  constructor
  · intro hmatch n m hn hm
    rw [← (hids.match_iff hn).1 (hmatch n hn)]
    exact (hids.match_iff hm).1 (hmatch m hm)
  · intro hagree n hn
    obtain ⟨m, hm, hshift⟩ := hids.listed n hn
    have hbounds := hm.bounds
    have hne := hone m hm
    rw [hids.match_iff hn, hshift, nearestPow2_eq (by omega) (by omega)]
    exact hagree m n hm hn

end LevelIds

/-- All caches are numbered right if and only if none has one processor only, and those of one level
agree in the number of bits. -/
theorem cacheIds_iff {hw : Cpuid} {apic : ApicInfo} {l2 l3 : CacheInfo}
    (h : detectApicMasks hw = .ok (apic, l2, l3)) :
    (∀ level n, ListsCache hw level n → CacheIdsRight apic level n)
      ↔ (∀ level n, ListsCache hw level n → n ≠ 1)
        ∧ ∀ level n m, level = 2 ∨ level = 3 → ListsCache hw level n → ListsCache hw level m →
          Nat.clog 2 n = Nat.clog 2 m := by
  have hleast : ∀ level n, ListsCache hw level n →
      (IsLeast {p | n ≤ 2 ^ p} (nearestPow2 n) ↔ n ≠ 1) := fun level n hlist => by
    have hbounds := hlist.bounds
    exact nearestPow2_isLeast_iff hbounds.1 (by omega)
  constructor
  · intro hright
    have hone : ∀ level n, ListsCache hw level n → n ≠ 1 := fun level n hlist =>
      (hleast level n hlist).1 (hright level n hlist).least
    refine ⟨hone, ?_⟩
    rintro level n m (rfl | rfl)
    · exact ((LevelIds.of_l2 h).forall_match_iff (hone 2)).1
        (fun n hn => (hright 2 n hn).l2 rfl) n m
    · exact ((LevelIds.of_l3 h).forall_match_iff (hone 3)).1
        (fun n hn => (hright 3 n hn).l3 rfl) n m
  · rintro ⟨hone, hagree⟩ level n hlist
    refine ⟨(hleast level n hlist).2 (hone level n hlist), ?_, ?_⟩
    · rintro rfl
      exact ((LevelIds.of_l2 h).forall_match_iff (hone 2)).2
        (fun n m => hagree 2 n m (Or.inl rfl)) n hlist
    · rintro rfl
      exact ((LevelIds.of_l3 h).forall_match_iff (hone 3)).2
        (fun n m => hagree 3 n m (Or.inr rfl)) n hlist

/-- A socket of 16 APIC ids with a common L3. The L1 and the L2 caches are those of a core, which
has two threads or one. -/
def coreHw (smt : BitVec 32) : Cpuid
  | 0xb, 0 => ⟨smt, smt + 1, 0x100, 0⟩
  | 0xb, 1 => ⟨4, 16, 0x201, 0⟩
  | 4, 0 => ⟨0x21 ||| smt <<< 14, 0, 0, 0⟩
  | 4, 1 => ⟨0x43 ||| smt <<< 14, 0, 0, 0⟩
  | 4, 2 => ⟨0x63 ||| 15 <<< 14, 0, 0, 0⟩
  | _, _ => ⟨0, 0, 0, 0⟩

def coreApic : ApicInfo := ⟨0xfffffff0, 4, 4, 1⟩

/-- Cores of two threads are numbered right. -/
theorem cacheIds_iff_twoThreads : CacheIdsRight coreApic 2 2 ∧ CacheIdsRight coreApic 3 16 := by
  have h : detectApicMasks (coreHw 1) = .ok (coreApic, ⟨true, 1⟩, ⟨true, 1⟩) := by decide +kernel
  have hlisted : ∀ level n, ListsCache (coreHw 1) level n →
      n ≠ 1 ∧ (level = 2 → n = 2) ∧ (level = 3 → n = 16) := by
    rintro level n ⟨round, hmore, rfl, rfl⟩
    have hround : round < 3 := by
      by_contra hge
      exact absurd (hmore 3 (by omega)) (by decide)
    interval_cases round <;> decide
  have hlists : ∀ r ≤ 2, moreCaches (coreHw 1) r = true := by
    intro r hr
    interval_cases r <;> decide
  have hagree : ∀ level n m, level = 2 ∨ level = 3 → ListsCache (coreHw 1) level n →
      ListsCache (coreHw 1) level m → Nat.clog 2 n = Nat.clog 2 m := by
    intro level n m hlevel hn hm
    rcases hlevel with rfl | rfl
    · rw [(hlisted 2 n hn).2.1 rfl, (hlisted 2 m hm).2.1 rfl]
    · rw [(hlisted 3 n hn).2.2 rfl, (hlisted 3 m hm).2.2 rfl]
  have hright := (cacheIds_iff h).2 ⟨fun level n hn => (hlisted level n hn).1, hagree⟩
  exact ⟨hright 2 2 ⟨1, fun r hr => hlists r (by omega), by decide, by decide⟩,
    hright 3 16 ⟨2, hlists, by decide, by decide⟩⟩

/-- Cores of one thread are not: those with the APIC ids 0 and 1 get one L2. -/
theorem cacheIds_oneThread :
    detectApicMasks (coreHw 0) = .ok (coreApic, ⟨true, 1⟩, ⟨true, 1⟩) ∧ ListsCache (coreHw 0) 2 1
      ∧ ¬ IsLeast {p | 1 ≤ 2 ^ p} (nearestPow2 1) ∧ ¬ SharersMatch coreApic CoreInfo.l2Id 1 := by
  refine ⟨by decide +kernel, ⟨1, fun r hr => ?_, by decide, by decide⟩, ?_, fun h => ?_⟩
  · interval_cases r <;> decide
  · rw [nearestPow2_isLeast_iff (by decide) (by decide)]
    exact not_not.2 rfl
  · have hsame := (h (fun cpu => some (BitVec.ofNat 32 cpu)) 0 1 0 1 _ _ rfl rfl rfl rfl).1
      (by decide)
    exact absurd (hsame 0 (Nat.zero_le _)) (by decide)

end Pqos
