import Pqos.Quota

/-!
# Leaving the search early loses nothing

A prediction that does not fall as cache or bandwidth grows misses the target below any point at
which it misses it. So what the two breaks of the search leave out would not have been taken, and
the search finds what a walk over the whole grid finds: the first of the cheapest quotas that meet
the target and cost less than the largest one, if there are any.
-/

namespace Pqos

open Search

variable {P C : Type} [LinearOrder P] [LinearOrder C] {g : QuotaGrid}
  {predict : Quota → Nat → P} {minCostFunction : Quota → C} {ips : P} {tasks fuel : Nat}
  {cpu mem llc : ℚ} {b b' : Best C Quota} {q : Quota}

/-! ## The two breaks -/

section Breaks

variable (hmembw : ∀ cpu mem llc, Monotone fun membw => predict ⟨cpu, mem, llc, membw⟩ tasks)

include hmembw in
theorem membwLoop_of_all
    (h : membwAll g predict minCostFunction ips tasks fuel cpu mem llc b = some b') :
    membwLoop g predict minCostFunction ips tasks fuel cpu mem llc b = some b' := by
  refine forDown_prune (fun membw => predict ⟨cpu, mem, llc, membw⟩ tasks < ips)
    (fun membw b => some (if predict ⟨cpu, mem, llc, membw⟩ tasks < ips then b
      else offerQuota minCostFunction ⟨cpu, mem, llc, membw⟩ b))
    (fun membw b => some (offerQuota minCostFunction ⟨cpu, mem, llc, membw⟩ b)) ?_ ?_ ?_ h
  · intro v w hvw hw
    exact (hmembw cpu mem llc hvw).trans_lt hw
  · intro v _ hv s t hst
    rw [if_pos hv] at hst
    exact (Option.some.inj hst).symm
  · intro v hv s t hst
    rwa [if_neg hv] at hst

include hmembw in
/-- Where the target is missed at the largest bandwidth, no bandwidth is taken. -/
theorem membwAll_idle (hmiss : predict ⟨cpu, mem, llc, g.max.membw⟩ tasks < ips)
    (h : membwAll g predict minCostFunction ips tasks fuel cpu mem llc b = some b') : b' = b := by
  obtain ⟨l, hl, hrun⟩ := (forDown_next fun membw b =>
    some (if predict ⟨cpu, mem, llc, membw⟩ tasks < ips then b
      else offerQuota minCostFunction ⟨cpu, mem, llc, membw⟩ b)).1 h
  refine foldlM_idle (fun v hv s t hst => ?_) hrun
  rw [if_pos ((hmembw cpu mem llc (down_le hl v hv)).trans_lt hmiss)] at hst
  exact (Option.some.inj hst).symm

include hmembw in
theorem llcLoop_of_all
    (hllc : ∀ cpu mem membw, Monotone fun llc => predict ⟨cpu, mem, llc, membw⟩ tasks)
    (h : llcAll g predict minCostFunction ips tasks fuel cpu mem b = some b') :
    llcLoop g predict minCostFunction ips tasks fuel cpu mem b = some b' := by
  refine forDown_prune (fun llc => predict ⟨cpu, mem, llc, g.max.membw⟩ tasks < ips)
    (membwAll g predict minCostFunction ips tasks fuel cpu mem)
    (membwLoop g predict minCostFunction ips tasks fuel cpu mem) ?_ ?_ ?_ h
  · intro v w hvw hw
    exact (hllc cpu mem g.max.membw hvw).trans_lt hw
  · intro v _ hv s t hst
    exact membwAll_idle hmembw hv hst
  · intro v _ s t hst
    exact membwLoop_of_all hmembw hst

end Breaks

omit [LinearOrder P] [LinearOrder C] in
/-- A search that is refined inside is refined as a whole. -/
theorem quotaSearch_refines {inner inner' : ℚ → ℚ → Best C Quota → Option (Best C Quota)}
    (hinner : ∀ cpu mem s t, inner cpu mem s = some t → inner' cpu mem s = some t)
    (h : quotaSearch g minCostFunction inner fuel = some q) :
    quotaSearch g minCostFunction inner' fuel = some q := by
  unfold quotaSearch at h ⊢
  rw [Option.map_eq_some_iff] at h ⊢
  obtain ⟨r, hr, hq⟩ := h
  refine ⟨r, forDown_refines (fun cpu s t hst => ?_) hr, hq⟩
  exact forDown_refines (fun mem s t hst => hinner cpu mem s t hst) hst

/-! ## The whole grid -/

/-- A point takes the place of the best if it meets the target and costs less. -/
def offerPoint (predict : Quota → Nat → P) (minCostFunction : Quota → C) (ips : P) (tasks : Nat)
    (b : Best C Quota) (q : Quota) : Best C Quota :=
  if predict q tasks < ips then b else offerQuota minCostFunction q b

theorem exhaustiveQuota_eq {l : List Quota} (h : g.points fuel = some l) :
    exhaustiveQuota g predict minCostFunction ips tasks fuel
      = some (l.foldl (offerPoint predict minCostFunction ips tasks)
          ⟨minCostFunction g.max, g.max⟩).best := by
  simp only [QuotaGrid.points, Option.bind_eq_bind, Option.bind_eq_some_iff] at h
  obtain ⟨cpus, hcpus, mems, hmems, llcs, hllcs, membws, hmembws, h⟩ := h
  obtain rfl := Option.some.inj h
  have hmembw : ∀ cpu mem llc b, membwAll g predict minCostFunction ips tasks fuel cpu mem llc b
      = some (membws.foldl (fun b membw =>
          offerPoint predict minCostFunction ips tasks b ⟨cpu, mem, llc, membw⟩) b) :=
    fun cpu mem llc b => forDown_foldl (f := fun membw b => some
      (offerPoint predict minCostFunction ips tasks b ⟨cpu, mem, llc, membw⟩)) hmembws
      fun _ _ => rfl
  have hllc : ∀ cpu mem b, llcAll g predict minCostFunction ips tasks fuel cpu mem b
      = some (llcs.foldl (fun b llc => membws.foldl (fun b membw =>
          offerPoint predict minCostFunction ips tasks b ⟨cpu, mem, llc, membw⟩) b) b) :=
    fun cpu mem b => forDown_foldl hllcs fun llc b => hmembw cpu mem llc b
  unfold exhaustiveQuota quotaSearch
  rw [forDown_foldl hcpus fun cpu b => forDown_foldl hmems fun mem b => hllc cpu mem b]
  simp only [List.foldl_flatMap, List.foldl_map, Option.map_some]

/-- The points that meet the target. -/
def meets (predict : Quota → Nat → P) (ips : P) (tasks : Nat) (l : List Quota) :
    List Quota :=
  l.filter fun q => ips ≤ predict q tasks

theorem foldl_offerPoint (l : List Quota) (b : Best C Quota) :
    l.foldl (offerPoint predict minCostFunction ips tasks) b
      = (meets predict ips tasks l).foldl (fun b q => offerQuota minCostFunction q b)
          b := by
  unfold meets
  rw [List.foldl_filter]
  congr 1
  funext b q
  unfold offerPoint
  by_cases h : predict q tasks < ips
  · simp [h]
  · simp [h, not_lt.1 h]

theorem exhaustiveQuota_cheapest {l : List Quota} (h : g.points fuel = some l) :
    ∃ r : Best C Quota,
      FirstCheapest minCostFunction (fun q => { q with cpu := twoDecimals q.cpu })
        (meets predict ips tasks l) ⟨minCostFunction g.max, g.max⟩ r
      ∧ exhaustiveQuota g predict minCostFunction ips tasks fuel = some r.best := by
  refine ⟨_, firstCheapest_foldl _ _, ?_⟩
  rw [exhaustiveQuota_eq h, foldl_offerPoint]
  rfl

theorem points_ends (hcpu : 0 < g.step.cpu) (hmem : 0 < g.step.mem)
    (hllc : 0 < g.step.llc) (hmembw : 0 < g.step.membw) :
    ∃ N, ∀ fuel ≥ N, ∃ l, g.points fuel = some l := by
  obtain ⟨n₁, h₁⟩ := down_ends (y := g.min.cpu) hcpu g.max.cpu
  obtain ⟨n₂, h₂⟩ := down_ends (y := g.min.mem) hmem g.max.mem
  obtain ⟨n₃, h₃⟩ := down_ends (y := g.min.llc) hllc g.max.llc
  obtain ⟨n₄, h₄⟩ := down_ends (y := g.min.membw) hmembw g.max.membw
  refine ⟨max (max n₁ n₂) (max n₃ n₄), fun fuel hfuel => ?_⟩
  simp only [ge_iff_le, max_le_iff] at hfuel
  obtain ⟨⟨hf₁, hf₂⟩, hf₃, hf₄⟩ := hfuel
  obtain ⟨cpus, hcpus⟩ := h₁ fuel hf₁
  obtain ⟨mems, hmems⟩ := h₂ fuel hf₂
  obtain ⟨llcs, hllcs⟩ := h₃ fuel hf₃
  obtain ⟨membws, hmembws⟩ := h₄ fuel hf₄
  exact ⟨_, by simp only [QuotaGrid.points, hcpus, hmems, hllcs, hmembws]; rfl⟩

/-- The search with its two breaks finds what the whole grid has to offer. -/
theorem getQuotaFromIpc_eq
    (hllc : ∀ cpu mem membw, Monotone fun llc => predict ⟨cpu, mem, llc, membw⟩ tasks)
    (hmembw : ∀ cpu mem llc, Monotone fun membw => predict ⟨cpu, mem, llc, membw⟩ tasks) :
    (∀ fuel q, exhaustiveQuota g predict minCostFunction ips tasks fuel = some q →
      getQuotaFromIpc g predict minCostFunction ips tasks fuel = some q) ∧
    (∀ fuel l, g.points fuel = some l → ∃ r : Best C Quota,
      FirstCheapest minCostFunction (fun q => { q with cpu := twoDecimals q.cpu })
        (meets predict ips tasks l) ⟨minCostFunction g.max, g.max⟩ r
      ∧ exhaustiveQuota g predict minCostFunction ips tasks fuel = some r.best) ∧
    (0 < g.step.cpu → 0 < g.step.mem → 0 < g.step.llc → 0 < g.step.membw →
      ∃ N, ∀ fuel ≥ N, ∃ l, g.points fuel = some l) :=
  ⟨fun _ _ h => quotaSearch_refines (fun _ _ _ _ => llcLoop_of_all hmembw hllc) h,
    fun _ _ h => exhaustiveQuota_cheapest h, points_ends⟩

/-! ## What the search returns -/

/-- A point that the search may try. -/
structure QuotaGrid.Within (g : QuotaGrid) (q : Quota) : Prop where
  cpu : g.min.cpu < q.cpu ∧ q.cpu ≤ g.max.cpu
  mem : g.min.mem < q.mem ∧ q.mem ≤ g.max.mem
  llc : g.min.llc < q.llc ∧ q.llc ≤ g.max.llc
  membw : g.min.membw < q.membw ∧ q.membw ≤ g.max.membw

/-- The largest quota, or one that was tried, with its CPU as it is printed. -/
def QuotaGrid.Found (g : QuotaGrid) (q : Quota) : Prop :=
  q = g.max ∨ ∃ r, g.Within r ∧ q = { r with cpu := twoDecimals r.cpu }

theorem found_offerQuota (hb : g.Found b.best) (hq : g.Within q) :
    g.Found (offerQuota minCostFunction q b).best := by
  unfold offerQuota Best.offer
  split_ifs
  · exact Or.inr ⟨q, hq, rfl⟩
  · exact hb

/-- Whatever the model predicts, the quota that is returned comes from the grid. -/
theorem getQuotaFromIpc_found (hcpu : 0 ≤ g.step.cpu) (hmem : 0 ≤ g.step.mem)
    (hllc : 0 ≤ g.step.llc) (hmembw : 0 ≤ g.step.membw)
    (h : getQuotaFromIpc g predict minCostFunction ips tasks fuel = some q) : g.Found q := by
  unfold getQuotaFromIpc quotaSearch at h
  obtain ⟨b', hrun, rfl⟩ := Option.map_eq_some_iff.1 h
  refine forDown_inv (P := fun b : Best C Quota => g.Found b.best) hcpu ?_ (Or.inl rfl) hrun
  intro cpu hc hc' b r hb hr
  obtain ⟨b₁, hrun, rfl⟩ := Option.map_eq_some_iff.1 hr
  refine forDown_inv (P := fun b : Best C Quota => g.Found b.best) hmem ?_ hb hrun
  intro mem hm hm' b r hb hr
  obtain ⟨b₂, hrun, rfl⟩ := Option.map_eq_some_iff.1 hr
  refine forDown_inv (P := fun b : Best C Quota => g.Found b.best) hllc ?_ hb hrun
  intro llc hl hl' b r hb hr
  split_ifs at hr
  · cases hr
    exact hb
  obtain ⟨b₃, hrun, rfl⟩ := Option.map_eq_some_iff.1 hr
  refine forDown_inv (P := fun b : Best C Quota => g.Found b.best) hmembw ?_ hb hrun
  intro membw hw hw' b r hb hr
  split_ifs at hr <;> cases hr
  · exact hb
  · exact found_offerQuota hb ⟨⟨hc, hc'⟩, ⟨hm, hm'⟩, ⟨hl, hl'⟩, ⟨hw, hw'⟩⟩

/-- Two sizes of memory, cache and bandwidth each, and a model that adds up cache and bandwidth. -/
def smallGrid : QuotaGrid := ⟨⟨1, 2, 2, 2⟩, ⟨0, 0, 0, 0⟩, ⟨1, 1, 1, 1⟩⟩

theorem getQuotaFromIpc_smallGrid :
    getQuotaFromIpc smallGrid (fun q _ => q.llc + q.membw) minCostMysql 3 1 4
      = some ⟨1, 1, 2, 1⟩ := by
  have h := @getQuotaFromIpc_eq ℚ ℚ _ _ smallGrid (fun q _ => q.llc + q.membw) minCostMysql 3 1
    (fun _ _ _ _ _ h => by simpa using h) (fun _ _ _ _ _ h => by simpa using h)
  exact h.1 4 _ (by decide +kernel)

end Pqos
