import Pqos.AllocSelect

/-!
# The table of definitions

The definitions of all options are stored one after another, so the table is the list of them as
long as it has room. Then what is read back to set the classes is what was stored. Nothing ends the
options when the room is gone: the next definition is written behind the table.
-/

namespace Pqos

open CText Prog

/-- The table that has these definitions. -/
def holding (defs : List (List Char)) : AllocOpts :=
  { allocOpts := defs.map some ++ List.replicate (32 - defs.length) none
    selAllocOptNum := defs.length }

/-- The definitions that a sequence of options has before one that is empty. -/
def allocDefs (opts : List (List Char)) : List (List Char) :=
  (opts.takeWhile (· ≠ [])).flatMap (strtok ';')

/-- A sequence of options. -/
def allocClasses (opts : List (List Char)) : Except Halt AllocOpts :=
  opts.foldlM selfnAllocationClass noAllocOpts

/-- No definition is stored behind the table, and no entry is read that none was stored in. -/
def StoresInside (opts : List (List Char)) : Prop :=
  allocClasses opts ≠ .error .overrun
    ∧ ∀ tab, allocClasses opts = .ok tab →
      (∀ i < tab.selAllocOptNum, ∃ str ∈ allocDefs opts, readAllocOpt tab i = some str)
      ∧ ∀ {σ : Type} (set : List Char → BitVec 32 → σ → CosSet σ) selAllocMod s,
        (setAlloc set tab selAllocMod s).isSome

section Store

variable {defs tokens : List (List Char)} {token arg : List Char} {opts : List (List Char)}

theorem storeAllocOpt_holding (h : defs.length ≤ 32) (token : List Char) :
    storeAllocOpt (holding defs) token
      = if defs.length < 32 then .ok (holding (defs ++ [token])) else .error .overrun := by
  have hlength : (holding defs).allocOpts.length = 32 := by
    simp only [holding, List.length_append, List.length_map, List.length_replicate]
    omega
  unfold storeAllocOpt
  rw [hlength]
  split_ifs with hroom hroom'
  · obtain ⟨k, hk⟩ : ∃ k, 32 - defs.length = k + 1 := ⟨31 - defs.length, by omega⟩
    have hrest : 32 - (defs.length + 1) = k := by omega
    simp only [holding, hrest, hk, List.replicate_succ, List.length_append, List.length_singleton,
      List.map_append, List.map_cons, List.map_nil, List.append_assoc, List.singleton_append]
    rw [List.set_append_right _ _ (by rw [List.length_map]), List.length_map, Nat.sub_self,
      List.set_cons_zero]
  · exact absurd hroom hroom'
  · exact absurd ‹_› hroom
  · rfl

theorem storeAllocOpts_holding (h : defs.length ≤ 32) :
    tokens.foldlM storeAllocOpt (holding defs)
      = if (defs ++ tokens).length ≤ 32 then .ok (holding (defs ++ tokens))
        else .error .overrun := by
  induction tokens generalizing defs with
  | nil =>
    rw [List.append_nil, if_pos h]
    rfl
  | cons token tokens ih =>
    have hsplit : defs ++ token :: tokens = (defs ++ [token]) ++ tokens := by
      rw [List.append_assoc, List.singleton_append]
    rw [List.foldlM_cons, storeAllocOpt_holding h, hsplit]
    split_ifs with hroom hall hall
    · refine (ih ?_).trans (if_pos hall)
      rwa [List.length_append]
    · refine (ih ?_).trans (if_neg hall)
      rwa [List.length_append]
    · rw [List.length_append, List.length_append, List.length_singleton] at hall
      omega
    · rfl

/-- The options store all their definitions, or an option that is empty ends them, or the table has
no room. -/
theorem allocOptions_holding (h : defs.length ≤ 32) :
    opts.foldlM selfnAllocationClass (holding defs)
      = if (defs ++ allocDefs opts).length ≤ 32 then
          if [] ∈ opts then .error .exit else .ok (holding (defs ++ allocDefs opts))
        else .error .overrun := by
  induction opts generalizing defs with
  | nil =>
    have hnone : allocDefs [] = [] := rfl
    rw [hnone, List.append_nil, if_pos h, if_neg (by simp)]
    rfl
  | cons arg opts ih =>
    rw [List.foldlM_cons, selfnAllocationClass]
    by_cases harg : arg = []
    · have hnone : allocDefs (arg :: opts) = [] := by simp [allocDefs, harg]
      rw [if_pos harg, hnone, List.append_nil, if_pos h, if_pos (by simp [harg])]
      rfl
    · have hdefs : defs ++ allocDefs (arg :: opts)
          = (defs ++ strtok ';' arg) ++ allocDefs opts := by
        rw [allocDefs, List.takeWhile_cons_of_pos (by simpa using harg), List.flatMap_cons,
          List.append_assoc, allocDefs]
      have hmem : [] ∈ arg :: opts ↔ [] ∈ opts := by simp [Ne.symm harg]
      rw [if_neg harg, storeAllocOpts_holding h, hdefs]
      by_cases hroom : (defs ++ strtok ';' arg).length ≤ 32
      · simp only [if_pos hroom, hmem]
        exact ih hroom
      · rw [if_neg hroom, if_neg]
        · rfl
        · rw [List.length_append]
          omega

theorem allocClasses_eq (opts : List (List Char)) :
    allocClasses opts = if (allocDefs opts).length ≤ 32 then
        if [] ∈ opts then .error .exit else .ok (holding (allocDefs opts))
      else .error .overrun := by
  have hstart : noAllocOpts = holding [] := rfl
  rw [allocClasses, hstart, allocOptions_holding (Nat.zero_le _), List.nil_append]

end Store

/-! ## Reading the table -/

section Read

variable {defs : List (List Char)} {σ : Type} {set : List Char → BitVec 32 → σ → CosSet σ}

theorem readAllocOpt_holding {i : Nat} (h : i < defs.length) :
    ∃ str ∈ defs, readAllocOpt (holding defs) i = some str := by
  refine ⟨defs.get ⟨i, h⟩, List.get_mem _ _, ?_⟩
  have hentry : (holding defs).allocOpts[i]? = some (some (defs.get ⟨i, h⟩)) := by
    rw [holding, List.getElem?_append_left (by rwa [List.length_map]), List.getElem?_map,
      List.getElem?_eq_getElem h]
    rfl
  rw [readAllocOpt, hentry]
  rfl

variable (set) in
theorem setAllocFrom_isSome : ∀ (entries : List Nat) (st : CosSet σ),
    (∀ i ∈ entries, i < defs.length) → (setAllocFrom set (holding defs) entries st).isSome
  | [], _, _ => rfl
  | i :: entries, st, h => by
    obtain ⟨str, -, hread⟩ := readAllocOpt_holding (h i List.mem_cons_self)
    rw [setAllocFrom, hread]
    simp only [Option.bind_eq_bind, Option.bind_some]
    split_ifs
    · rfl
    · exact setAllocFrom_isSome entries _ fun j hj => h j (List.mem_cons_of_mem i hj)

theorem setAlloc_holding (selAllocMod : BitVec 32) (s : σ) :
    (setAlloc set (holding defs) selAllocMod s).isSome := by
  unfold setAlloc
  split_ifs
  · rfl
  have hentries : ∀ i ∈ List.range (holding defs).selAllocOptNum, i < defs.length :=
    fun i hi => List.mem_range.1 hi
  obtain ⟨st, hst⟩ := Option.isSome_iff_exists.1
    (setAllocFrom_isSome set _ ⟨-1, selAllocMod, s⟩ hentries)
  have hread : ∀ i ∈ List.range (holding defs).selAllocOptNum,
      (readAllocOpt (holding defs) i).isSome := fun i hi => by
    obtain ⟨str, -, hstr⟩ := readAllocOpt_holding (hentries i hi)
    rw [hstr]
    rfl
  obtain ⟨freed, hfreed⟩ := Option.isSome_iff_exists.1 (option_mapM_isSome hread)
  rw [hst, hfreed]
  rfl

end Read

/-- The table is kept to exactly if it has room for the definitions before the first empty
option. -/
theorem storesInside_iff (opts : List (List Char)) :
    StoresInside opts ↔ (allocDefs opts).length ≤ 32 := by
  unfold StoresInside
  rw [allocClasses_eq]
  split_ifs with hroom hempty
  · exact iff_of_true ⟨by simp, fun tab htab => by cases htab⟩ hroom
  · refine iff_of_true ⟨by simp, fun tab htab => ?_⟩ hroom
    obtain rfl := Except.ok.inj htab
    exact ⟨fun i hi => readAllocOpt_holding hi, fun _ _ _ => setAlloc_holding _ _⟩
  · exact iff_of_false (fun h => h.1 rfl) hroom

/-- The option is given once more than the table has entries. -/
theorem storesInside_overrun : ¬ ∀ opts, StoresInside opts := by
  intro h
  have hdefs : (allocDefs (List.replicate 33 "llc:1=0xf".toList)).length = 33 := by decide +kernel
  refine (h (List.replicate 33 "llc:1=0xf".toList)).1 ?_
  rw [allocClasses_eq, if_neg (by omega)]

end Pqos
