import Pqos.Split
import Pqos.Proofs.Quota

/-!
# The two splits agree

The mask that is submitted comes from shifting, and the number of ways from a subtraction. A quota
of `n` ways leaves the lowest `11 - n` bits of the mask, and both ways of it make up one where none
is left. The cores of a quota are its CPUs rounded up, every other core from the first.
-/

namespace Pqos

open Search

/-! ## Numbers -/

section Numbers

variable {x : ℚ} {n : Int}

theorem intResult_eq_some {m : Int} : intResult n = some m ↔ n = m ∧ -2 ^ 31 ≤ n ∧ n < 2 ^ 31 := by
  unfold intResult
  rw [Option.ite_none_right_eq_some, Option.some.injEq, and_comm]

theorem intResult_isSome : (intResult n).isSome ↔ -2 ^ 31 ≤ n ∧ n < 2 ^ 31 := by
  unfold intResult
  split_ifs with h
  · exact iff_of_true rfl h
  · exact iff_of_false Bool.false_ne_true h

/-- What a conversion makes of a number. -/
theorem truncInt_of_nonneg (hx : 0 ≤ x) : truncInt x = intResult ⌊x⌋ := by
  unfold truncInt
  rw [if_neg (not_lt.2 hx)]

theorem truncInt_isSome : (truncInt x).isSome ↔ -2 ^ 31 - 1 < x ∧ x < 2 ^ 31 := by
  unfold truncInt
  rw [intResult_isSome]
  split_ifs with hx
  · rw [Int.le_ceil_iff, Int.ceil_lt_iff]
    push_cast
    constructor
    · rintro ⟨hlo, -⟩
      exact ⟨hlo, hx.trans (by norm_num)⟩
    · rintro ⟨hlo, -⟩
      exact ⟨hlo, hx.le.trans (by norm_num)⟩
  · rw [Int.le_floor, Int.floor_lt]
    push_cast
    have hpos := not_lt.1 hx
    constructor
    · rintro ⟨-, hhi⟩
      exact ⟨lt_of_lt_of_le (by norm_num) hpos, hhi⟩
    · rintro ⟨-, hhi⟩
      exact ⟨le_trans (by norm_num) hpos, hhi⟩

end Numbers

/-! ## Ways -/

theorem getWayCounts_mask (k : Nat) : getWayCounts (2 ^ k - 1) = k := by
  induction k with
  | zero =>
    unfold getWayCounts
    rfl
  | succ k ih =>
    have hpos : 0 < 2 ^ k := Nat.two_pow_pos k
    have hshift : (2 ^ (k + 1) - 1) >>> 1 = 2 ^ k - 1 := by
      rw [Nat.shiftRight_eq_div_pow]
      omega
    unfold getWayCounts
    rw [if_neg (by omega), hshift, ih]

theorem shift_mask (w n : Nat) : (fun mask => mask >>> 1)^[n] (2 ^ w - 1) = 2 ^ (w - n) - 1 := by
  induction n with
  | zero => rfl
  | succ n ih =>
    rw [Function.iterate_succ_apply', ih, Nat.shiftRight_eq_div_pow]
    rcases Nat.lt_or_ge n w with h | h
    · obtain ⟨d, hd⟩ : ∃ d, w - n = d + 1 := ⟨w - n - 1, by omega⟩
      have hd' : w - (n + 1) = d := by omega
      have hpos : 0 < 2 ^ d := Nat.two_pow_pos d
      rw [hd, hd', Nat.pow_succ]
      omega
    · rw [Nat.sub_eq_zero_of_le h, Nat.sub_eq_zero_of_le (Nat.le_succ_of_le h)]
      rfl

/-- The mask that is left of the ways, and how many it has. -/
theorem currentOfflineLlc_eq {s : IsolationVars} {n : Nat} (hn : s.onlineLlcWays = n) :
    currentOfflineLlc s = 2 ^ max (11 - n) 1 - 1 := by
  unfold currentOfflineLlc
  rw [hn, Int.toNat_natCast, show llcWays = 2 ^ 11 - 1 from rfl, shift_mask]
  rcases Nat.lt_or_ge n 11 with h | h
  · have hpos : 1 < 2 ^ (11 - n) := Nat.one_lt_two_pow (by omega)
    rw [max_eq_left (by omega)]
    exact if_neg (by omega)
  · rw [Nat.sub_eq_zero_of_le h]
    rfl

/-! ## Cores -/

/-- The CPUs rounded up, none of fewer than 0. -/
theorem cores_eq {cpu : ℚ} {whole : Int} (h : truncInt cpu = some whole) :
    (if (whole : ℚ) < cpu then whole + 1 else whole).toNat = ⌈cpu⌉₊ := by
  unfold truncInt at h
  rw [intResult_eq_some] at h
  obtain ⟨rfl, -⟩ := h
  rw [← Int.ceil_toNat]
  by_cases hcpu : cpu < 0
  · rw [if_pos hcpu, if_neg (not_lt.2 (Int.le_ceil cpu))]
  · rw [if_neg hcpu]
    have hle := Int.floor_le cpu
    have hlt := Int.lt_floor_add_one cpu
    refine congrArg Int.toNat (Int.ceil_eq_iff.2 ?_).symm
    split_ifs with hfloor
    · push_cast
      exact ⟨by linarith, hlt.le⟩
    · exact ⟨by linarith, not_lt.1 hfloor⟩

/-- Every other core from the first is online. -/
def evenOnline (k : Nat) (allCores : Fin coreNums → Int) : Fin coreNums → Int :=
  fun i => if (i : Nat) % 2 = 0 ∧ (i : Nat) / 2 < k then 1 else allCores i

theorem setOnline_range (allCores : Fin coreNums → Int) {k : Nat} (hk : k ≤ 16) :
    (List.range k).foldlM setOnline allCores = some (evenOnline k allCores) := by
  induction k with
  | zero =>
    refine congrArg some (funext fun i => ?_)
    exact (if_neg fun h => absurd h.2 (Nat.not_lt_zero _)).symm
  | succ k ih =>
    have hstore : 2 * k < coreNums := by
      unfold coreNums
      omega
    rw [List.range_succ, List.foldlM_append, ih (by omega)]
    have hone : [k].foldlM setOnline (evenOnline k allCores)
        = setOnline (evenOnline k allCores) k := by
      rw [List.foldlM_cons]
      exact bind_pure _
    refine hone.trans ?_
    unfold setOnline
    rw [dif_pos hstore]
    refine congrArg some (funext fun i => ?_)
    unfold evenOnline
    by_cases hi : i = ⟨2 * k, hstore⟩
    · subst hi
      rw [Function.update_self, if_pos (by dsimp only; omega)]
    · have hne : (i : Nat) ≠ 2 * k := fun h => hi (Fin.ext h)
      rw [Function.update_of_ne hi]
      exact if_congr (by omega) rfl rfl

/-- A list of cores as it is printed. -/
def coresText (cores : List Nat) : List Char := cores.flatMap coreText

theorem coreLists_fold (allCores : Fin coreNums → Int) (l : List (Fin coreNums))
    (lists : List Char × List Char) :
    l.foldl (fun lists i =>
        if allCores i = 1 then (lists.1 ++ coreText i, lists.2)
        else (lists.1, lists.2 ++ coreText i)) lists
      = (lists.1 ++ coresText ((l.filter fun i => allCores i = 1).map Fin.val),
        lists.2 ++ coresText ((l.filter fun i => ¬ allCores i = 1).map Fin.val)) := by
  induction l generalizing lists with
  | nil => simp [coresText]
  | cons i l ih =>
    rw [List.foldl_cons, ih]
    by_cases hi : allCores i = 1 <;> simp [hi, coresText]

/-- The lists are printed from two parts of the cores. -/
theorem coreLists_eq (allCores : Fin coreNums → Int) : ∃ online offline : List Nat,
    coreLists allCores = (coresText online, coresText offline)
      ∧ (online ++ offline).Perm (List.range coreNums)
      ∧ online.length = (List.finRange coreNums).countP fun i => allCores i = 1 := by
  refine ⟨_, _, (coreLists_fold allCores _ _).trans rfl, ?_, ?_⟩
  · rw [← List.map_append, ← List.map_coe_finRange_eq_range]
    refine List.Perm.map _ ?_
    simpa using List.filter_append_perm (fun i => decide (allCores i = 1)) (List.finRange coreNums)
  · rw [List.length_map, List.countP_eq_length_filter]

theorem evenOnline_count {k : Nat} (hk : k ≤ 16) :
    (List.finRange coreNums).countP (fun i => evenOnline k (fun _ => 0) i = 1) = k := by
  have hall : ∀ k : Fin 17,
      (List.finRange coreNums).countP (fun i => evenOnline k (fun _ => 0) i = 1) = k := by
    decide
  exact hall ⟨k, by omega⟩

/-! ## The quota -/

/-- The numbers that the functions convert fit an `int`, and so does what is left of 100. -/
structure Quota.Converts (q : Quota) : Prop where
  cpu : -2 ^ 31 - 1 < q.cpu
  llc : q.llc < 2 ^ 31
  membw : 100 - 2 ^ 31 < q.membw ∧ q.membw < 2 ^ 31

/-- Two decimals are as near as a hundredth. -/
theorem twoDecimals_near (x : ℚ) : x - 1 / 100 ≤ twoDecimals x ∧ twoDecimals x ≤ x + 1 / 100 := by
  have hle := Int.floor_le (x * 100)
  have hlt := Int.lt_floor_add_one (x * 100)
  unfold twoDecimals
  dsimp only
  split_ifs <;> constructor <;> push_cast <;> linarith

/-- The search returns quotas that convert. -/
theorem converts_of_found {q : Quota} (h : mysqlGrid.Found q) :
    q.cpu ≤ 16 ∧ 0 ≤ q.llc ∧ q.Converts := by
  rcases h with rfl | ⟨r, ⟨⟨hc, hc'⟩, -, ⟨hl, hl'⟩, hw, hw'⟩, rfl⟩
  · refine ⟨?_, ?_, ?_, ?_, ?_, ?_⟩ <;> norm_num [mysqlGrid]
  · simp only [mysqlGrid] at hc hc' hl hl' hw hw'
    obtain ⟨hnear, hnear'⟩ := twoDecimals_near r.cpu
    refine ⟨?_, ?_, ?_, ?_, ?_, ?_⟩ <;> dsimp only <;> linarith

/-- What is left of 100 is an `int` as well, where the percentage is one and not too far below 0. -/
theorem membw_converts {x : ℚ} :
    (∃ mba left, truncInt x = some mba ∧ intResult (100 - mba) = some left)
      ↔ 100 - 2 ^ 31 < x ∧ x < 2 ^ 31 := by
  constructor
  · rintro ⟨mba, left, hmba, hleft⟩
    have hx := truncInt_isSome.1 (Option.isSome_iff_exists.2 ⟨mba, hmba⟩)
    obtain ⟨-, -, hlt⟩ := intResult_eq_some.1 hleft
    obtain ⟨hwhole, -⟩ := intResult_eq_some.1 hmba
    refine ⟨?_, hx.2⟩
    split_ifs at hwhole with hneg
    · have hceil : 101 - 2 ^ 31 ≤ ⌈x⌉ := by omega
      rw [Int.le_ceil_iff] at hceil
      push_cast at hceil
      linarith
    · linarith
  · rintro ⟨hlo, hhi⟩
    obtain ⟨mba, hmba⟩ := Option.isSome_iff_exists.1 (truncInt_isSome.2 ⟨by linarith, hhi⟩)
    refine ⟨mba, 100 - mba, hmba, intResult_eq_some.2 ⟨rfl, ?_⟩⟩
    obtain ⟨hwhole, hint, hint'⟩ := intResult_eq_some.1 hmba
    rw [hwhole] at hint hint'
    refine ⟨by omega, ?_⟩
    split_ifs at hwhole with hneg
    · have hceil : 101 - 2 ^ 31 ≤ ⌈x⌉ := by
        rw [Int.le_ceil_iff]
        push_cast
        linarith
      omega
    · have hfloor : 0 ≤ ⌊x⌋ := Int.floor_nonneg.2 (not_lt.1 hneg)
      omega

/-- The ways of a quota of cache, rounded up where the whole number of its kilobytes is no
multiple. -/
theorem ways_eq {llc : ℚ} (hllc : 0 ≤ llc) (hlt : llc < 2 ^ 31) : ∃ n : Nat,
    truncInt (llc / 1024) = some ⌊llc / 1024⌋ ∧ truncInt llc = some ⌊llc⌋
      ∧ intResult (if ⌊llc⌋.tmod 1024 ≠ 0 then ⌊llc / 1024⌋ + 1 else ⌊llc / 1024⌋)
        = some (n : Int)
      ∧ n < 2 ^ 30 := by
  have hpos : 0 ≤ llc / 1024 := by positivity
  have hfloor : 0 ≤ ⌊llc / 1024⌋ := Int.floor_nonneg.2 hpos
  have hsmall : ⌊llc / 1024⌋ < 2 ^ 21 := by
    rw [Int.floor_lt]
    push_cast
    linarith
  have hllc' : ⌊llc⌋ < 2 ^ 31 := by
    rw [Int.floor_lt]
    push_cast
    exact hlt
  have hllc₀ : 0 ≤ ⌊llc⌋ := Int.floor_nonneg.2 hllc
  refine ⟨(if ⌊llc⌋.tmod 1024 ≠ 0 then ⌊llc / 1024⌋ + 1 else ⌊llc / 1024⌋).toNat, ?_, ?_, ?_, ?_⟩
  · rw [truncInt_of_nonneg hpos, intResult_eq_some]
    exact ⟨rfl, by omega, by omega⟩
  · rw [truncInt_of_nonneg hllc, intResult_eq_some]
    exact ⟨rfl, by omega, by omega⟩
  · rw [intResult_eq_some]
    split_ifs <;> omega
  · split_ifs <;> omega

/-- The split of a quota. -/
theorem getOnlineCores_eq {q : Quota} (hcpu : q.cpu ≤ 16) (hllc : 0 ≤ q.llc) (hq : q.Converts)
    (s : IsolationVars) : ∃ (n : Nat) (left : Int), getOnlineCores q (initCores s)
      = some ⟨evenOnline ⌈q.cpu⌉₊ fun _ => 0, (max (11 - n) 1 : Nat), n, left⟩ := by
  obtain ⟨whole, hwhole⟩ := Option.isSome_iff_exists.1
    (truncInt_isSome.2 ⟨hq.cpu, hcpu.trans_lt (by norm_num)⟩)
  have hceil := cores_eq hwhole
  have hfew : ⌈q.cpu⌉₊ ≤ 16 := Nat.ceil_le.2 (by exact_mod_cast hcpu)
  have hcores : intResult (if (whole : ℚ) < q.cpu then whole + 1 else whole)
      = some (if (whole : ℚ) < q.cpu then whole + 1 else whole) := by
    obtain ⟨hint, hlo, -⟩ := intResult_eq_some.1 hwhole
    rw [hint] at hlo
    refine intResult_eq_some.2 ⟨rfl, ?_⟩
    split_ifs at hceil ⊢ <;> omega
  have hset : (List.range ⌈q.cpu⌉₊).foldlM setOnline (initCores s).allCores
      = some (evenOnline ⌈q.cpu⌉₊ fun _ => 0) := setOnline_range (fun _ => 0) hfew
  obtain ⟨mba, left, hmba, hleft⟩ := membw_converts.2 hq.membw
  obtain ⟨n, hways, hwholeLlc, honline, hn⟩ := ways_eq hllc hq.llc
  have hoffline : intResult (getWayCounts llcWays - (n : Int)) = some (11 - n : Int) := by
    rw [show getWayCounts llcWays = 11 from getWayCounts_mask 11]
    refine intResult_eq_some.2 ⟨rfl, ?_⟩
    omega
  refine ⟨n, left, ?_⟩
  unfold getOnlineCores
  simp only [Option.bind_eq_bind, hwhole, Option.bind_some, hcores, hceil, hset, hmba, hleft, hways,
    hwholeLlc, honline, hoffline]
  have hmax : (if (11 : Int) - n ≤ 0 then 1 else 11 - n : Int) = (max (11 - n) 1 : Nat) := by
    split_ifs <;> omega
  rw [hmax]
  rfl

/-- Where the functions have a result, the quota converts. -/
theorem converts_of_some {q : Quota} {s t : IsolationVars} (h : getOnlineCores q s = some t) :
    q.Converts := by
  unfold getOnlineCores at h
  simp only [Option.bind_eq_bind, Option.bind_eq_some_iff] at h
  obtain ⟨whole, hwhole, _, -, _, -, mba, hmba, left, hleft, _, -, llc, hllc, -⟩ := h
  exact ⟨(truncInt_isSome.1 (Option.isSome_iff_exists.2 ⟨whole, hwhole⟩)).1,
    (truncInt_isSome.1 (Option.isSome_iff_exists.2 ⟨llc, hllc⟩)).2,
    membw_converts.1 ⟨mba, left, hmba, hleft⟩⟩

/-- What is submitted for a quota is a split of the cores and of the ways. -/
structure SplitSound (q : Quota) (s : IsolationVars) (u : IsolationSubmit) : Prop where
  mask : ∃ k : Nat, 0 < k ∧ u.offlineLlc = 2 ^ k - 1 ∧ s.offlineLlcWays = k
  within : u.offlineLlc &&& llcWays = u.offlineLlc
  mba : 10 ≤ u.offlineMba
  cores : ∃ online offline : List Nat, u.onlineCores = coresText online
    ∧ u.offlineCores = coresText offline ∧ (online ++ offline).Perm (List.range coreNums)
    ∧ online.length = ⌈q.cpu⌉₊

/-- For every quota of at most 16 CPUs, the mask that comes from shifting has as many ways as the
subtraction says. Quotas that the search returns convert, and those that do have a split. -/
theorem isolationSplit {q : Quota} (hcpu : q.cpu ≤ 16) (hllc : 0 ≤ q.llc) (s : IsolationVars) :
    (∀ (P C : Type) [LinearOrder P] [LinearOrder C] (predict : Quota → Nat → P)
        (minCostFunction : Quota → C) (ips : P) (tasks fuel : Nat),
      getQuotaFromIpc mysqlGrid predict minCostFunction ips tasks fuel = some q → q.Converts)
      ∧ ((getOnlineCores q (initCores s)).isSome ↔ q.Converts)
      ∧ ∀ t, getOnlineCores q (initCores s) = some t → SplitSound q t (isolationSubmit t).1 := by
  refine ⟨fun P C _ _ predict minCost ips tasks fuel h => ?_, ⟨fun h => ?_, fun hq => ?_⟩,
    fun t ht => ?_⟩
  · have hfound : mysqlGrid.Found q := by
      refine getQuotaFromIpc_found ?_ ?_ ?_ ?_ h <;> norm_num [mysqlGrid]
    exact (converts_of_found hfound).2.2
  · obtain ⟨t, ht⟩ := Option.isSome_iff_exists.1 h
    exact converts_of_some ht
  · obtain ⟨n, left, h⟩ := getOnlineCores_eq hcpu hllc hq s
    rw [h]
    rfl
  · obtain ⟨n, left, h⟩ := getOnlineCores_eq hcpu hllc (converts_of_some ht) s
    obtain rfl := Option.some.inj (ht.symm.trans h)
    obtain ⟨online, offline, hlists, hperm, hcount⟩ :=
      coreLists_eq (evenOnline ⌈q.cpu⌉₊ fun _ => 0)
    have hmask : currentOfflineLlc
          ⟨evenOnline ⌈q.cpu⌉₊ fun _ => 0, (max (11 - n) 1 : Nat), n, left⟩
        = 2 ^ max (11 - n) 1 - 1 := currentOfflineLlc_eq rfl
    have hwithin : 2 ^ max (11 - n) 1 ≤ 2 ^ 11 := Nat.pow_le_pow_right Nat.two_pos (by omega)
    refine ⟨⟨max (11 - n) 1, by omega, hmask, rfl⟩, ?_, ?_, online, offline,
      congrArg Prod.fst hlists, congrArg Prod.snd hlists, hperm, ?_⟩
    · show currentOfflineLlc _ &&& (2 ^ 11 - 1) = currentOfflineLlc _
      rw [hmask]
      exact Nat.and_two_pow_sub_one_of_lt_two_pow (by omega)
    · show (10 : Int) ≤ if left < 10 then 10 else left
      split_ifs <;> omega
    · rw [hcount]
      exact evenOnline_count (Nat.ceil_le.2 (by exact_mod_cast hcpu))

/-- More cache than there is, and nearly all of the bandwidth. -/
def aboveCache : Quota := ⟨29 / 10, 512000, 20000, 95⟩

theorem isolationSplit_aboveCache :
    ∃ t, getOnlineCores aboveCache (initCores isolationVars) = some t
    ∧ SplitSound aboveCache t (isolationSubmit t).1 := by
  have hconverts : aboveCache.Converts := by
    refine ⟨?_, ?_, ?_, ?_⟩ <;> norm_num [aboveCache]
  obtain ⟨-, hsome, hsound⟩ := isolationSplit (q := aboveCache) (by norm_num [aboveCache])
    (by norm_num [aboveCache]) isolationVars
  obtain ⟨t, ht⟩ := Option.isSome_iff_exists.1 (hsome.2 hconverts)
  exact ⟨t, ht, hsound t ht⟩

end Pqos
