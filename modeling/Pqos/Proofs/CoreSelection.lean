import Mathlib.Data.Finset.Lattice.Basic
import Pqos.Lib.Cells
import Pqos.Proofs.CoreGroups

/-!
# The groups of cores that are selected

Two groups without duplicates have as many pairs of equal cores as they have cores in common, so the
comparison tells equal sets and disjoint ones from those that overlap. A group that an option names
then is new, or its events are added to the one entry with its cores, or the option is rejected.
That the entries are those of the groups named rests on the parser, which must have had room for
each part of each option.
-/

namespace Pqos

open CText Distinct Prog

/-! ## Comparing groups -/

def CoreGroup.set (cg : CoreGroup) : Finset Nat := cg.cores.toFinset

/-- An entry as a set of cores and its events. -/
def CoreGroup.cell (cg : CoreGroup) : Finset Nat × MonEvent := (cg.set, cg.events)

/-- The pairs of equal cores of two groups. -/
theorem matches_eq {a b : List Nat} (ha : a.Nodup) (hb : b.Nodup) :
    (a.map fun core => b.count core).sum = (a.toFinset ∩ b.toFinset).card := by
  have hfilter : (a.filter fun core => core ∈ b).toFinset = a.toFinset ∩ b.toFinset := by
    ext core
    simp
  rw [← hfilter, List.toFinset_card_of_nodup (ha.filter _), ← List.countP_eq_length_filter]
  clear hfilter ha
  induction a with
  | nil => rfl
  | cons core a ih =>
    rw [List.map_cons, List.sum_cons, ih, List.countP_cons, hb.count]
    simp [Nat.add_comm]

section Compare

variable {cgA cgB : CoreGroup}

theorem cmpCgrps_cases (ha : cgA.cores.Nodup) (hb : cgB.cores.Nodup) :
    (cmpCgrps cgA cgB = 0 ∧ Disjoint cgA.set cgB.set)
      ∨ (cmpCgrps cgA cgB = 1 ∧ cgA.set = cgB.set)
      ∨ (cmpCgrps cgA cgB = -1 ∧ ¬ Disjoint cgA.set cgB.set ∧ cgA.set ≠ cgB.set) := by
  have hcardA : cgA.set.card = cgA.cores.length := List.toFinset_card_of_nodup ha
  have hcardB : cgB.set.card = cgB.cores.length := List.toFinset_card_of_nodup hb
  have hfound : (cgA.cores.map fun core => cgB.cores.count core).sum
      = (cgA.set ∩ cgB.set).card := matches_eq ha hb
  unfold cmpCgrps
  simp only [hfound, ← hcardA, ← hcardB]
  by_cases hnone : (cgA.set ∩ cgB.set).card = 0
  · rw [if_pos hnone]
    exact Or.inl ⟨rfl, Finset.disjoint_iff_inter_eq_empty.2 (Finset.card_eq_zero.1 hnone)⟩
  have hmeet : ¬ Disjoint cgA.set cgB.set := fun hdis =>
    hnone (Finset.card_eq_zero.2 (Finset.disjoint_iff_inter_eq_empty.1 hdis))
  rw [if_neg hnone]
  split_ifs with hall
  · -- the common cores are all of both
    have hA : cgA.set ∩ cgB.set = cgA.set :=
      Finset.eq_of_subset_of_card_le Finset.inter_subset_left (by omega)
    have hB : cgA.set ∩ cgB.set = cgB.set :=
      Finset.eq_of_subset_of_card_le Finset.inter_subset_right (by omega)
    exact Or.inr (Or.inl ⟨rfl, hA.symm.trans hB⟩)
  · refine Or.inr (Or.inr ⟨rfl, hmeet, fun heq => hall ?_⟩)
    rw [heq, Finset.inter_self]
    exact ⟨rfl, rfl⟩

/-- What the search for a group's entry ends with. -/
theorem markCgrp_cases (evt : MonEvent) {cgrp : CoreGroup} {tab : List CoreGroup}
    (hcgrp : cgrp.cores.Nodup) (htab : ∀ cg ∈ tab, cg.cores.Nodup) :
    (markCgrp evt cgrp tab = .ok none ∧ ∀ cg ∈ tab, Disjoint cg.set cgrp.set)
      ∨ (∃ pre cg post, tab = pre ++ cg :: post ∧ cg.set = cgrp.set
        ∧ markCgrp evt cgrp tab
          = .ok (some (pre ++ { cg with events := cg.events ||| evt } :: post)))
      ∨ (markCgrp evt cgrp tab = .error .exit
        ∧ ∃ cg ∈ tab, ¬ Disjoint cg.set cgrp.set ∧ cg.set ≠ cgrp.set) := by
  induction tab with
  | nil => exact Or.inl ⟨rfl, by simp⟩
  | cons cg tab ih =>
    rw [markCgrp]
    rcases cmpCgrps_cases (htab cg List.mem_cons_self) hcgrp with
      ⟨hcmp, hdis⟩ | ⟨hcmp, heq⟩ | ⟨hcmp, hover⟩
    · rw [if_neg (by omega), if_neg (by omega)]
      rcases ih fun d hd => htab d (List.mem_cons_of_mem _ hd) with
        ⟨hrest, hall⟩ | ⟨pre, d, post, rfl, heq, hrest⟩ | ⟨hrest, d, hd, hover⟩
      · left
        rw [hrest]
        exact ⟨rfl, List.forall_mem_cons.2 ⟨hdis, hall⟩⟩
      · right; left
        refine ⟨cg :: pre, d, post, rfl, heq, ?_⟩
        rw [hrest]
        rfl
      · right; right
        rw [hrest]
        exact ⟨rfl, d, List.mem_cons_of_mem _ hd, hover⟩
    · right; left
      rw [if_neg (by omega), if_pos (by omega)]
      exact ⟨[], cg, tab, rfl, heq, rfl⟩
    · right; right
      rw [if_pos (by omega)]
      exact ⟨rfl, cg, List.mem_cons_self, hover⟩

end Compare

/-! ## One group -/

/-- The table of the groups named, with duplicates in none. -/
structure Keeps (names : List (Finset Nat × MonEvent)) (tab : List CoreGroup) : Prop where
  kept : Cells.Kept (· ||| ·) 0 names (tab.map CoreGroup.cell)
  nodup : ∀ cg ∈ tab, cg.cores.Nodup

/-- The table holds the sets that are named, and the empty one is named once at most. -/
structure Few (names : List (Finset Nat × MonEvent)) : Prop where
  card : (names.map Prod.fst).toFinset.card ≤ pqosMaxCores
  empty : names.countP (fun n => n.1 = ∅) ≤ 1

theorem Few.of_append {names more : List (Finset Nat × MonEvent)} (h : Few (names ++ more)) :
    Few names := by
  refine ⟨Nat.le_trans (Finset.card_le_card ?_) h.card, ?_⟩
  · rw [List.map_append, List.toFinset_append]
    exact Finset.subset_union_left
  · have := h.empty
    rw [List.countP_append] at this
    omega

section Select

variable {names : List (Finset Nat × MonEvent)} {tab tab' : List CoreGroup} {evt : MonEvent}
  {cgrp : CoreGroup}

theorem selectCgrp_keeps (h : Keeps names tab) (hcgrp : cgrp.cores.Nodup)
    (hfew : Few (names ++ [(cgrp.set, evt)])) (hok : selectCgrp evt tab cgrp = .ok tab') :
    Keeps (names ++ [(cgrp.set, evt)]) tab' := by
  have hsets : ∀ s, s ∈ tab.map CoreGroup.set ↔ s ∈ names.map Prod.fst := by
    intro s
    rw [← h.kept.mem_iff s, List.map_map]
    rfl
  unfold selectCgrp at hok
  rcases markCgrp_cases evt hcgrp h.nodup with
    ⟨hmark, hdis⟩ | ⟨pre, cg, post, rfl, heq, hmark⟩ | ⟨hmark, -⟩ <;>
    rw [hmark] at hok
  · -- a new group, for which there is an entry
    have hempty : cgrp.set = ∅ → ∅ ∉ names.map Prod.fst := by
      intro hset hmem
      obtain ⟨n, hn, hnone⟩ := List.mem_map.1 hmem
      have hone : 0 < names.countP (fun n => n.1 = ∅) :=
        List.countP_pos_iff.2 ⟨n, hn, by simpa using hnone⟩
      have hle := hfew.empty
      rw [List.countP_append, List.countP_singleton, if_pos (by simpa using hset)] at hle
      omega
    have hnew := h.kept.add (e := evt) (by simp) (fun c hc => by
      obtain ⟨cg, hcg, rfl⟩ := List.mem_map.1 hc
      exact hdis cg hcg) hempty
    have hroom : tab.length < pqosMaxCores := by
      have hlength := hnew.length_eq
      have hcard := hfew.card
      rw [List.length_append, List.length_map, List.length_singleton] at hlength
      omega
    simp only [bind, Except.bind, hroom, if_true, pure, Except.pure, Except.ok.injEq] at hok
    subst hok
    refine ⟨?_, fun cg hcg => ?_⟩
    · rw [List.map_append]
      exact hnew
    · rcases List.mem_append.1 hcg with hcg | hcg
      · exact h.nodup cg hcg
      · rw [List.mem_singleton.1 hcg]
        exact hcgrp
  · -- the entry of the same cores
    simp only [bind, Except.bind, pure, Except.pure, Except.ok.injEq] at hok
    subst hok
    have hcell : cg.cell = (cgrp.set, cg.events) := by rw [← heq]; rfl
    have hold := h.kept
    rw [List.map_append, List.map_cons, hcell] at hold
    refine ⟨?_, fun d hd => ?_⟩
    · rw [List.map_append, List.map_cons]
      have hnew := hold.merge (e := evt)
      rw [← heq] at hnew ⊢
      exact hnew
    · rcases List.mem_append.1 hd with hd | hd
      · exact h.nodup d (List.mem_append_left _ hd)
      rcases List.mem_cons.1 hd with rfl | hd
      · exact h.nodup cg (by simp)
      · exact h.nodup d (by simp [hd])
  · cases hok

theorem selectCgrps_keeps {cgrps : List CoreGroup} (h : Keeps names tab)
    (hcgrps : ∀ cgrp ∈ cgrps, cgrp.cores.Nodup)
    (hfew : Few (names ++ cgrps.map fun cgrp => (cgrp.set, evt)))
    (hok : cgrps.foldlM (selectCgrp evt) tab = .ok tab') :
    Keeps (names ++ cgrps.map fun cgrp => (cgrp.set, evt)) tab' := by
  induction cgrps generalizing names tab with
  | nil =>
    obtain rfl : tab = tab' := Except.ok.inj hok
    rwa [List.map_nil, List.append_nil]
  | cons cgrp cgrps ih =>
    have hsplit : names ++ (cgrp :: cgrps).map (fun cgrp => (cgrp.set, evt))
        = (names ++ [(cgrp.set, evt)]) ++ cgrps.map fun cgrp => (cgrp.set, evt) := by
      rw [List.append_assoc]
      rfl
    rw [List.foldlM_cons, except_bind_ok] at hok
    obtain ⟨next, hnext, hrest⟩ := hok
    rw [hsplit] at hfew ⊢
    have hstep := selectCgrp_keeps h (hcgrps cgrp List.mem_cons_self) hfew.of_append hnext
    exact ih hstep (fun c hc => hcgrps c (List.mem_cons_of_mem _ hc)) hfew hrest

end Select

/-! ## Options -/

/-- The sets that one selection of an option names, with its events. -/
def namesOf (str : List Char) : List (Finset Nat × MonEvent) :=
  match parseEvent str 0 with
  | .ok (evt, _) =>
    ((namedParts (behindColon str)).flatMap Part.groups).map fun group => (group.toFinset, evt)
  | .error _ => []

def optionNames (arg : List Char) : List (Finset Nat × MonEvent) :=
  (strtok ';' arg).flatMap namesOf

def runNames (opts : List (List Char)) : List (Finset Nat × MonEvent) := opts.flatMap optionNames

/-- A sequence of options. -/
def monitorCores (opts : List (List Char)) : Except Halt Selected :=
  opts.foldlM selfnMonitorCores noneSelected

section Options

variable {names : List (Finset Nat × MonEvent)} {sel sel' : Selected} {str : List Char}

theorem parseEvent_evt {m m' : MonEvent} {evt : MonEvent} (h : parseEvent str m = .ok (evt, m')) :
    ∃ m₀, parseEvent str 0 = .ok (evt, m₀) := by
  unfold parseEvent at *
  split_ifs at h ⊢
  all_goals
    cases h
    exact ⟨_, rfl⟩

theorem groups_nodup {part : Part (List Nat)} {group : List Nat} (h : group ∈ part.groups) :
    group.Nodup := by
  cases part with
  | cores values =>
    obtain ⟨core, -, rfl⟩ := List.mem_map.1 h
    exact List.nodup_singleton core
  | group values =>
    rw [List.mem_singleton.1 h]
    exact nodup_eraseDups values

/-- A selection that is accepted names what it adds. -/
theorem parseMonitorEvent_keeps (h : Keeps names sel.selMonitorCoreTab)
    (hsmall : Small (namedParts (behindColon str)))
    (hroom : HasRoom pqosMaxCores 0 (namedParts (behindColon str)))
    (hfew : Few (names ++ namesOf str)) (hok : parseMonitorEvent sel str = .ok sel') :
    Keeps (names ++ namesOf str) sel'.selMonitorCoreTab := by
  unfold parseMonitorEvent at hok
  obtain ⟨⟨evt, eventsMax⟩, hevt, hok⟩ := except_bind_ok.1 hok
  obtain ⟨cgrps, hcgrps, hok⟩ := except_bind_ok.1 hok
  obtain ⟨tab, htab, hok⟩ := except_bind_ok.1 hok
  obtain rfl := Except.ok.inj hok
  obtain ⟨eventsMax₀, hevt₀⟩ := parseEvent_evt hevt
  have hfirst : HasRoom pqosMaxCores ([] : List CoreGroup).length
      (namedParts (behindColon str)) := hroom
  rw [strtocgrps_eq] at hcgrps
  rcases addParts_room (by decide) hsmall hfirst with ⟨new, hnew, hgroups⟩ | ⟨herr, -⟩
  · rw [hnew] at hcgrps
    obtain rfl : new = cgrps := Except.ok.inj hcgrps
    have hnames : namesOf str = new.map fun cgrp => (cgrp.set, evt) := by
      have hmap : new.map (fun cgrp => (cgrp.set, evt))
          = (new.map CoreGroup.cores).map fun group => (group.toFinset, evt) := by
        rw [List.map_map]
        rfl
      rw [hmap, hgroups]
      unfold namesOf
      rw [hevt₀]
      rfl
    rw [hnames] at hfew ⊢
    refine selectCgrps_keeps h (fun cgrp hcgrp => ?_) hfew htab
    have hmem : cgrp.cores ∈ new.map CoreGroup.cores := List.mem_map_of_mem hcgrp
    rw [hgroups] at hmem
    obtain ⟨part, -, hgroup⟩ := List.mem_flatMap.1 hmem
    exact groups_nodup hgroup
  · rw [herr] at hcgrps
    cases hcgrps

end Options

/-! ## Errors -/

/-- Nothing goes wrong but that the tool reports an error and exits. -/
def OnlyExits {β : Type} (r : Except Halt β) : Prop := ∀ e, r = .error e → e = .exit

section Errors

variable {β γ : Type} {r : Except Halt β} {sel : Selected} {str arg : List Char}

theorem OnlyExits.ok (b : β) : OnlyExits (.ok b) := fun _ h => by cases h

theorem OnlyExits.exit : OnlyExits (.error .exit : Except Halt β) := fun _ h =>
  (Except.error.inj h).symm

theorem OnlyExits.bind {f : β → Except Halt γ} (hr : OnlyExits r)
    (hf : ∀ b, r = .ok b → OnlyExits (f b)) : OnlyExits (r >>= f) := by
  cases r with
  | ok b => exact hf b rfl
  | error e =>
    obtain rfl := hr e rfl
    exact OnlyExits.exit

theorem OnlyExits.foldlM {f : γ → β → Except Halt γ} {l : List β}
    (h : ∀ b ∈ l, ∀ c, OnlyExits (f c b)) (c : γ) : OnlyExits (l.foldlM f c) := by
  induction l generalizing c with
  | nil => exact OnlyExits.ok c
  | cons b l ih =>
    rw [List.foldlM_cons]
    exact (h b List.mem_cons_self c).bind fun c' _ =>
      ih (fun b' hb' => h b' (List.mem_cons_of_mem _ hb')) c'

theorem markCgrp_exits (evt : MonEvent) (cgrp : CoreGroup) (tab : List CoreGroup) :
    OnlyExits (markCgrp evt cgrp tab) := by
  induction tab with
  | nil => exact OnlyExits.ok none
  | cons cg tab ih =>
    rw [markCgrp]
    split_ifs
    · exact OnlyExits.exit
    · exact OnlyExits.ok _
    · exact ih.bind fun _ _ => OnlyExits.ok _

theorem parseEvent_exits (str : List Char) (m : MonEvent) : OnlyExits (parseEvent str m) := by
  unfold parseEvent
  split_ifs
  all_goals first | exact OnlyExits.ok _ | exact OnlyExits.exit

theorem parseMonitorEvent_exits (hsmall : Small (namedParts (behindColon str)))
    (hroom : HasRoom pqosMaxCores 0 (namedParts (behindColon str))) :
    OnlyExits (parseMonitorEvent sel str) := by
  have hfirst : HasRoom pqosMaxCores ([] : List CoreGroup).length
      (namedParts (behindColon str)) := hroom
  refine (parseEvent_exits str _).bind fun evt _ => ?_
  rw [strtocgrps_eq]
  rcases addParts_room (by decide) hsmall hfirst with ⟨new, hnew, -⟩ | ⟨herr, -⟩
  · rw [hnew]
    refine (OnlyExits.foldlM (fun cgrp _ tab => ?_) _).bind fun _ _ => OnlyExits.ok _
    refine (markCgrp_exits _ _ _).bind fun found _ => ?_
    cases found with
    | some tab' => exact OnlyExits.ok _
    | none =>
      dsimp only
      split_ifs <;> exact OnlyExits.ok _
  · rw [herr]
    exact OnlyExits.exit

end Errors

/-! ## Sequences of options -/

/-- The groups are apart, without duplicates, each named one is there once, and has the events of
all that named it. -/
structure GroupsSelected (names : List (Finset Nat × MonEvent)) (tab : List CoreGroup) : Prop where
  disjoint : tab.Pairwise fun a b => Disjoint a.set b.set
  nodup : ∀ cg ∈ tab, cg.cores.Nodup
  once : ∀ n ∈ names, tab.countP (fun cg => cg.set = n.1) = 1
  events : ∀ cg ∈ tab, cg.events = Cells.labelOf (· ||| ·) 0 names cg.set

/-- A set that is named meets a group of the table without being it. -/
def Overlaps (names : List (Finset Nat × MonEvent)) (tab : List CoreGroup) : Prop :=
  ∃ cg ∈ tab, ∃ n ∈ names, ¬ Disjoint cg.set n.1 ∧ cg.set ≠ n.1

/-- After the accepted options the table has the groups they named, and the next option is rejected
if it overlaps them. -/
def Selects (opts : List (List Char)) : Prop :=
  ∀ pre post sel, opts = pre ++ post → monitorCores pre = .ok sel →
    GroupsSelected (runNames pre) sel.selMonitorCoreTab
      ∧ ∀ arg, post.head? = some arg →
        Overlaps (optionNames arg) sel.selMonitorCoreTab → selfnMonitorCores sel arg = .error .exit

/-- The cores are 32-bit numbers, and fewer groups are named than the table holds. -/
structure Plain (opts : List (List Char)) : Prop where
  small : ∀ arg ∈ opts, ∀ str ∈ strtok ';' arg, Small (namedParts (behindColon str))
  few : ((runNames opts).map Prod.fst).toFinset.card < pqosMaxCores

/-- The parser has room for each part of each option, and no two brackets are empty. -/
structure Roomy (opts : List (List Char)) : Prop where
  room : ∀ arg ∈ opts, ∀ str ∈ strtok ';' arg,
    HasRoom pqosMaxCores 0 (namedParts (behindColon str))
  empty : (runNames opts).countP (fun n => n.1 = ∅) ≤ 1

section Runs

variable {opts pre post : List (List Char)} {names : List (Finset Nat × MonEvent)}
  {sel sel' : Selected} {arg : List Char}

theorem runNames_append (pre post : List (List Char)) :
    runNames (pre ++ post) = runNames pre ++ runNames post := List.flatMap_append

theorem Keeps.selected {tab : List CoreGroup} (h : Keeps names tab) :
    GroupsSelected names tab := by
  have hdis := h.kept.disjoint
  rw [List.pairwise_map] at hdis
  refine ⟨hdis, h.nodup, fun n hn => ?_, fun cg hcg => ?_⟩
  · have honce := h.kept.once (List.mem_map_of_mem hn)
    rw [List.countP_map] at honce
    exact honce
  · exact h.kept.label cg.cell (List.mem_map_of_mem hcg)

/-- One option keeps the table that of the groups named. -/
theorem selfnMonitorCores_keeps (h : Keeps names sel.selMonitorCoreTab)
    (hsmall : ∀ str ∈ strtok ';' arg, Small (namedParts (behindColon str)))
    (hroom : ∀ str ∈ strtok ';' arg, HasRoom pqosMaxCores 0 (namedParts (behindColon str)))
    (hfew : Few (names ++ optionNames arg)) (hok : selfnMonitorCores sel arg = .ok sel') :
    Keeps (names ++ optionNames arg) sel'.selMonitorCoreTab := by
  unfold selfnMonitorCores at hok
  split_ifs at hok
  exact except_foldlM_gathers (fun names sel => Keeps names sel.selMonitorCoreTab) Few
    Few.of_append (fun str hstr _ _ _ hkeeps hfew hok =>
      parseMonitorEvent_keeps hkeeps (hsmall str hstr) (hroom str hstr) hfew hok) h hfew hok

theorem selfnMonitorCores_exits
    (hsmall : ∀ str ∈ strtok ';' arg, Small (namedParts (behindColon str)))
    (hroom : ∀ str ∈ strtok ';' arg, HasRoom pqosMaxCores 0 (namedParts (behindColon str))) :
    OnlyExits (selfnMonitorCores sel arg) := by
  unfold selfnMonitorCores
  split_ifs
  · exact OnlyExits.exit
  · exact OnlyExits.foldlM (fun str hstr _ =>
      parseMonitorEvent_exits (hsmall str hstr) (hroom str hstr)) _

/-- The groups named are few enough for the table. -/
theorem Plain.few_names (hplain : Plain opts) (hroomy : Roomy opts) : Few (runNames opts) :=
  ⟨Nat.le_of_lt hplain.few, hroomy.empty⟩

theorem monitorCores_keeps (hplain : Plain opts) (hroomy : Roomy opts)
    (h : opts = pre ++ post) (hok : monitorCores pre = .ok sel) :
    Keeps (runNames pre) sel.selMonitorCoreTab := by
  have hfew := hplain.few_names hroomy
  rw [h, runNames_append] at hfew
  have hstart : Keeps [] noneSelected.selMonitorCoreTab := ⟨Cells.Kept.nil, by simp [noneSelected]⟩
  have hmem : ∀ arg ∈ pre, arg ∈ opts := fun arg harg => h ▸ List.mem_append_left _ harg
  exact except_foldlM_gathers (fun names sel => Keeps names sel.selMonitorCoreTab) Few
    Few.of_append (fun arg harg _ _ _ hkeeps hfew hok =>
      selfnMonitorCores_keeps hkeeps (hplain.small arg (hmem arg harg))
        (hroomy.room arg (hmem arg harg)) hfew hok) hstart hfew.of_append hok

/-- An option that overlaps a group of the table is not accepted. -/
theorem not_accepted (h : Keeps names sel.selMonitorCoreTab)
    (hsel : Keeps (names ++ optionNames arg) sel'.selMonitorCoreTab) :
    ¬ Overlaps (optionNames arg) sel.selMonitorCoreTab := by
  rintro ⟨cg, hcg, n, hn, hmeet, hne⟩
  have hcell : cg.set ∈ names.map Prod.fst := by
    rw [← h.kept.mem_iff, List.map_map]
    exact List.mem_map_of_mem hcg
  refine hmeet (hsel.kept.apart ?_ ?_ hne)
  · rw [List.map_append]
    exact List.mem_append_left _ hcell
  · rw [List.map_append]
    exact List.mem_append_right _ (List.mem_map_of_mem hn)

/-- Over every sequence of options, the table has the groups that were named, if the parser has room
for each part. -/
theorem monitorCores_selects (hplain : Plain opts) (hroomy : Roomy opts) : Selects opts := by
  intro pre post sel hopts hok
  have hkeeps := monitorCores_keeps hplain hroomy hopts hok
  refine ⟨hkeeps.selected, fun arg harg hover => ?_⟩
  obtain ⟨rest, rfl⟩ : ∃ rest, post = arg :: rest := by
    rcases post with _ | ⟨a, rest⟩
    · cases harg
    · obtain rfl : a = arg := Option.some.inj harg
      exact ⟨rest, rfl⟩
  have hmem : arg ∈ opts := by simp [hopts]
  rcases hrun : selfnMonitorCores sel arg with e | sel'
  · rw [selfnMonitorCores_exits (hplain.small arg hmem) (hroomy.room arg hmem) e hrun]
  · have hfew := hplain.few_names hroomy
    have hcons : runNames (arg :: rest) = optionNames arg ++ runNames rest := rfl
    rw [hopts, runNames_append, hcons, ← List.append_assoc] at hfew
    have hnext := selfnMonitorCores_keeps hkeeps (hplain.small arg hmem) (hroomy.room arg hmem)
      hfew.of_append hrun
    exact absurd hover (not_accepted hkeeps hnext)

end Runs

/-- A group named twice, the second time in another order. -/
def twoOrders : List (List Char) := ["llc:0,[1,2]".toList, "mbl:[2,1]".toList]

theorem twoOrders_tokens : ∀ arg ∈ twoOrders, ∀ str ∈ strtok ';' arg,
    namedParts (behindColon str) = [.cores [0], .group [1, 2], .cores []]
      ∨ namedParts (behindColon str) = [.cores [], .group [2, 1], .cores []] := by
  decide

theorem monitorCores_selects_twoOrders : Selects twoOrders := by
  refine monitorCores_selects ⟨fun arg harg str hstr => ?_, by decide⟩
    ⟨fun arg harg str hstr => ?_, by decide⟩
  · rcases twoOrders_tokens arg harg str hstr with h | h <;> rw [h] <;> unfold Small <;> decide
  · rcases twoOrders_tokens arg harg str hstr with h | h <;> rw [h] <;>
      exact ⟨by decide, by decide, by decide, trivial⟩

/-- One group, of a core more than the table has entries. -/
def largeGroup : List Char := "all:[0-512]".toList

theorem largeGroup_parts : selParts (behindColon largeGroup)
    = [.cores [], .group "0-512".toList, .cores []] := by decide

theorem largeGroup_list : named "0-512".toList = List.range' 0 513 := by
  have hitems : namedItems "0-512".toList = [.range 0 512] := by decide
  rw [named, hitems]
  simp [listed, NumItem.values]

theorem largeGroup_named : namedParts (behindColon largeGroup)
    = [.cores [], .group (List.range' 0 513), .cores []] := by
  have hnone : named [] = [] := by decide
  rw [namedParts, largeGroup_parts]
  simp only [List.map_cons, List.map_nil, Part.map, largeGroup_list, hnone]

theorem largeGroup_token : strtok ';' largeGroup = [largeGroup]
    ∧ parseEvent largeGroup 0 = .ok (pqosMonEventAll, 0) := by decide

theorem runNames_largeGroup :
    runNames [largeGroup] = [((List.range' 0 513).toFinset, pqosMonEventAll)] := by
  have hnodup : (List.range' 0 513).eraseDups = List.range' 0 513 :=
    eraseDups_of_nodup List.nodup_range'
  rw [runNames, List.flatMap_singleton, optionNames, largeGroup_token.1, List.flatMap_singleton,
    namesOf, largeGroup_token.2]
  simp only [largeGroup_named, List.flatMap_cons, List.flatMap_nil, Part.groups, hnodup]
  rfl

/-- A selection of one group. -/
theorem addParts_one {text : List Char} {tab : List CoreGroup}
    (h : addPart pqosMaxCores [] (.group text) = .ok tab) :
    [.cores [], .group text, .cores []].foldlM (addPart pqosMaxCores) [] = .ok tab := by
  have hnone : ∀ tab, addPart pqosMaxCores tab (.cores []) = .ok tab := fun _ => rfl
  simp only [List.foldlM_cons, List.foldlM_nil, hnone, bind, Except.bind, h, pure, Except.pure]

/-- What the parser makes of the group. -/
theorem strtocgrps_largeGroup : ∃ cg, strtocgrps (behindColon largeGroup) pqosMaxCores = .ok [cg]
    ∧ cg.cores.length = 512 := by
  have hread : ¬ Unread "0-512".toList := by
    unfold Unread
    decide
  have hsmall : ∀ v ∈ named "0-512".toList, v < 2 ^ 32 := by
    rw [largeGroup_list]
    intro v hv
    rw [List.mem_range'_1] at hv
    omega
  have hlen : ([] : List CoreGroup).length ≤ pqosMaxCores := by decide
  have hall : pqosMaxCores - ([] : List CoreGroup).length = 512 := by decide
  rw [strtocgrps_eq, largeGroup_parts]
  rcases addPart_cases (.group "0-512".toList) (by decide) hlen with ⟨hok, -⟩ | ⟨-, hno⟩ | ⟨-, hun⟩
  · rw [List.nil_append, Part.entries, Part.content, hall] at hok
    refine ⟨_, addParts_one hok, ?_⟩
    rw [setCgrp, List.length_map, stored_small hsmall, largeGroup_list,
      eraseDups_of_nodup List.nodup_range', List.length_take, List.length_range']
    rfl
  · cases hno
  · exact absurd hun hread

/-- The core that the table has no entry for is missing in the group. -/
theorem monitorCores_largeGroup : ¬ ∀ opts, Plain opts → Selects opts := by
  intro h
  have hnames := runNames_largeGroup
  have hplain : Plain [largeGroup] := by
    refine ⟨fun arg harg str hstr => ?_, by rw [hnames]; decide⟩
    rw [List.mem_singleton.1 harg, largeGroup_token.1] at hstr
    rw [List.mem_singleton.1 hstr, largeGroup_named]
    intro part hpart v hv
    rcases List.mem_cons.1 hpart with rfl | hpart
    · cases hv
    rcases List.mem_cons.1 hpart with rfl | hpart
    · rw [Part.content, List.mem_range'_1] at hv
      omega
    · rw [List.mem_singleton.1 hpart] at hv
      cases hv
  obtain ⟨cg, hcg, hlength⟩ := strtocgrps_largeGroup
  have hok : monitorCores [largeGroup]
        = .ok { noneSelected with
          selMonitorCoreTab := [{ cg with events := pqosMonEventAll }] } := by
    have htoken : parseMonitorEvent noneSelected largeGroup
        = .ok { noneSelected with
          selMonitorCoreTab := [{ cg with events := pqosMonEventAll }] } := by
      have hevt : parseEvent largeGroup noneSelected.selEventsMax = .ok (pqosMonEventAll, 0) :=
        largeGroup_token.2
      unfold parseMonitorEvent
      rw [hevt, hcg]
      rfl
    have harg : largeGroup ≠ [] := by decide
    simp only [monitorCores, List.foldlM_cons, List.foldlM_nil, selfnMonitorCores, if_neg harg,
      largeGroup_token.1, htoken]
    rfl
  have honce := (h _ hplain [largeGroup] [] _ rfl hok).1.once
    ((List.range' 0 513).toFinset, pqosMonEventAll) (by rw [hnames]; simp)
  have hpos : 0 < List.countP (fun cg : CoreGroup => cg.set = (List.range' 0 513).toFinset)
      [{ cg with events := pqosMonEventAll }] := by
    rw [honce]
    decide
  obtain ⟨d, hd, hset⟩ := List.countP_pos_iff.1 hpos
  rw [List.mem_singleton.1 hd, decide_eq_true_eq] at hset
  have hcard : cg.cores.toFinset.card = 513 := by
    have := congrArg Finset.card hset
    rwa [List.toFinset_card_of_nodup List.nodup_range', List.length_range'] at this
  have hle := List.toFinset_card_le cg.cores
  omega

end Pqos
