import Pqos.AssocSelect
import Pqos.Lib.Table
import Pqos.Proofs.PidSelection

/-!
# The classes that are associated

A list that is stored in an empty table is one of distinct ids, so it is stored as if each were
looked for. From then on an id that is named has one entry, which gets the class of every definition
that names it, so the class is that of the last one. Where all the ids named fit the table, nothing
but a text that cannot be read ends the tool.
-/

namespace Pqos

open CText Distinct Prog Table

section Fill

variable {ι : Type} [DecidableEq ι] {max : Nat} {a : SelAssoc ι}
  {names tab entries : List (SelAssoc ι)}

/-- What the search for an id's entry ends with. -/
theorem updateAssoc_cases (a : SelAssoc ι) (tab : List (SelAssoc ι)) :
    (updateAssoc a tab = none ∧ a.id ∉ tab.map SelAssoc.id)
      ∨ ∃ pre b post, tab = pre ++ b :: post ∧ b.id = a.id
        ∧ updateAssoc a tab = some (pre ++ a :: post) := by
  induction tab with
  | nil => exact Or.inl ⟨rfl, by simp⟩
  | cons b tab ih =>
    rw [updateAssoc]
    split_ifs with hid
    · have hentry : { b with classId := a.classId } = a := by rw [hid]
      exact Or.inr ⟨[], b, tab, rfl, hid, by rw [hentry, List.nil_append]⟩
    · rcases ih with ⟨hrest, hnew⟩ | ⟨pre, c, post, rfl, heq, hrest⟩
      · rw [hrest, List.map_cons, List.mem_cons, not_or]
        exact Or.inl ⟨rfl, Ne.symm hid, hnew⟩
      · rw [hrest]
        exact Or.inr ⟨b :: pre, c, post, rfl, heq, rfl⟩

/-- An id that the table does not have gets the next entry. -/
theorem selectAssoc_new (h : a.id ∉ tab.map SelAssoc.id) :
    selectAssoc max tab a = putAssoc max tab a := by
  rcases updateAssoc_cases a tab with ⟨hnone, -⟩ | ⟨pre, b, post, rfl, heq, -⟩
  · rw [selectAssoc, hnone]
  · exact absurd (by simp [heq]) h

/-- Distinct ids are stored as if each were looked for. -/
theorem putAssocs_eq (h : ((tab ++ entries).map SelAssoc.id).Nodup) :
    entries.foldlM (putAssoc max) tab = entries.foldlM (selectAssoc max) tab := by
  induction entries generalizing tab with
  | nil => rfl
  | cons a entries ih =>
    have hnew : a.id ∉ tab.map SelAssoc.id := by
      rw [List.map_append, List.map_cons, List.nodup_middle, List.nodup_cons, List.mem_append,
        not_or] at h
      exact h.1.1
    rw [List.foldlM_cons, List.foldlM_cons, selectAssoc_new hnew]
    unfold putAssoc
    split_ifs
    · rfl
    · refine ih ?_
      rwa [List.append_assoc]

/-- What is stored is as if each id were looked for. -/
theorem storeAssocs_eq (h : (entries.map SelAssoc.id).Nodup) :
    storeAssocs max tab entries = entries.foldlM (selectAssoc max) tab := by
  unfold storeAssocs
  split_ifs with hnone hfirst
  · rw [hnone]
    rfl
  · rw [hfirst]
    exact putAssocs_eq h
  · rfl

theorem selectAssoc_keeps (h : LastOf SelAssoc.id names tab)
    (hroom : ((names ++ [a]).map SelAssoc.id).toFinset.card ≤ max) :
    ∃ tab', selectAssoc max tab a = .ok tab' ∧ LastOf SelAssoc.id (names ++ [a]) tab' := by
  rcases updateAssoc_cases a tab with ⟨-, hnew⟩ | ⟨pre, b, post, rfl, heq, hsome⟩
  · have hlength := (h.push hnew).length_eq
    rw [List.length_append, List.length_singleton] at hlength
    refine ⟨tab ++ [a], ?_, h.push hnew⟩
    rw [selectAssoc_new hnew, putAssoc, if_neg (by omega)]
  · refine ⟨pre ++ a :: post, ?_, h.replace heq⟩
    rw [selectAssoc, hsome]

/-- More definitions name no fewer ids. -/
theorem card_ids_le (names more : List (SelAssoc ι)) :
    (names.map SelAssoc.id).toFinset.card ≤ ((names ++ more).map SelAssoc.id).toFinset.card := by
  refine Finset.card_le_card fun k hk => ?_
  rw [List.mem_toFinset] at hk ⊢
  rw [List.map_append]
  exact List.mem_append_left _ hk

theorem selectAssocs_keeps (h : LastOf SelAssoc.id names tab)
    (hroom : ((names ++ entries).map SelAssoc.id).toFinset.card ≤ max) :
    ∃ tab', entries.foldlM (selectAssoc max) tab = .ok tab'
      ∧ LastOf SelAssoc.id (names ++ entries) tab' := by
  induction entries generalizing names tab with
  | nil => exact ⟨tab, rfl, by rwa [List.append_nil]⟩
  | cons a entries ih =>
    have hsplit : names ++ a :: entries = (names ++ [a]) ++ entries := by
      rw [List.append_assoc, List.singleton_append]
    rw [hsplit] at hroom ⊢
    obtain ⟨next, hnext, hkeep⟩ :=
      selectAssoc_keeps h (Nat.le_trans (card_ids_le (names ++ [a]) entries) hroom)
    rw [List.foldlM_cons, hnext]
    exact ih hkeep hroom

end Fill

/-! ## What the definitions say -/

/-- The ids that a class and a list name, with the class. -/
def definedNames (str : List Char) : List (SelAssoc Nat) :=
  match strchr '=' str with
  | none => []
  | some (cls, list) =>
    match numberOf cls with
    | .ok cos => withClass (cos % 2 ^ 32) (named list)
    | .error _ => []

/-- A class and a list of which each number can be read. -/
def WellDefined (str : List Char) : Prop :=
  ∃ cls list cos, strchr '=' str = some (cls, list) ∧ numberOf cls = .ok cos ∧ ¬ Unread list

/-- An entry with its id as a table keeps it. -/
def SelAssoc.kept {ι : Type} (emb : Nat → ι) (a : SelAssoc Nat) : SelAssoc ι :=
  { id := emb a.id, classId := a.classId }

theorem ids_withClass {ι : Type} (cos : Nat) (ids : List ι) :
    (withClass cos ids).map SelAssoc.id = ids := by
  rw [withClass, List.map_map]
  exact List.map_id' ids

theorem kept_withClass {ι : Type} (emb : Nat → ι) (cos : Nat) (ids : List Nat) :
    (withClass cos ids).map (SelAssoc.kept emb) = withClass cos (ids.map emb) := by
  rw [withClass, withClass, List.map_map, List.map_map]
  rfl

section Defined

variable {ι : Type} [DecidableEq ι] {max : Nat} {cast emb : Nat → ι} {names : List (SelAssoc Nat)}
  {tab : List (SelAssoc ι)} {str : List Char}

theorem card_kept (hemb : Function.Injective emb) :
    ((names.map (SelAssoc.kept emb)).map SelAssoc.id).toFinset.card
      = (names.map SelAssoc.id).toFinset.card := by
  have himage : ((names.map (SelAssoc.kept emb)).map SelAssoc.id).toFinset
      = (names.map SelAssoc.id).toFinset.image emb := by
    ext k
    simp [SelAssoc.kept]
  rw [himage, Finset.card_image_of_injective _ hemb]

/-- What a definition names is the list of ids with the class. -/
theorem definedNames_eq {cls list : List Char} {cos : Nat}
    (hsplit : strchr '=' str = some (cls, list)) (hcls : numberOf cls = .ok cos) :
    definedNames str = withClass (cos % 2 ^ 32) (named list) := by
  rw [definedNames, hsplit]
  dsimp only
  rw [hcls]

/-- A repeated id of a list adds nothing. -/
theorem lastNamed_withClass (entries : List (SelAssoc ι)) (cos : Nat) {ids ids' : List ι}
    (hids : ∀ k, k ∈ ids ↔ k ∈ ids') (k : ι) :
    lastNamed SelAssoc.id k (entries ++ withClass cos ids)
      = lastNamed SelAssoc.id k (entries ++ withClass cos ids') := by
  have hof : ∀ l : List ι, ∀ a ∈ withClass cos l,
      ({ id := a.id, classId := cos } : SelAssoc ι) = a := by
    intro l a ha
    obtain ⟨id, -, rfl⟩ := List.mem_map.1 ha
    rfl
  rw [lastNamed_append _ _ (fun k => { id := k, classId := cos }) entries (hof ids),
    lastNamed_append _ _ (fun k => { id := k, classId := cos }) entries (hof ids')]
  simp only [ids_withClass, hids]

/-- A list that is read adds the ids it names. -/
theorem storeAssocs_keeps (hemb : Function.Injective emb) {list : List Char} {cos : Nat}
    (hcast : ∀ v ∈ named list, v < 2 ^ 32 ∧ cast v = emb v)
    (h : LastOf SelAssoc.id (names.map (SelAssoc.kept emb)) tab)
    (hroom : ((names ++ withClass cos (named list)).map SelAssoc.id).toFinset.card ≤ max) :
    ∃ tab', storeAssocs max tab (withClass cos ((stored list max).map cast)) = .ok tab'
      ∧ LastOf SelAssoc.id
        ((names ++ withClass cos (named list)).map (SelAssoc.kept emb)) tab' := by
  rw [← card_kept hemb] at hroom
  rw [List.map_append, kept_withClass] at hroom ⊢
  have hlist : (named list).toFinset.card ≤ max := by
    refine Nat.le_trans ?_ hroom
    rw [← Finset.card_image_of_injective _ hemb]
    refine Finset.card_le_card fun k hk => ?_
    rw [List.map_append, ids_withClass, List.toFinset_append, Finset.mem_union, List.mem_toFinset,
      List.mem_toFinset]
    simpa using Or.inr hk
  have hstored : stored list max = (named list).eraseDups :=
    stored_all (fun v hv => (hcast v hv).1) hlist
  have hids : (stored list max).map cast = (named list).eraseDups.map emb := by
    rw [hstored]
    exact List.map_congr_left fun v hv => (hcast v (List.mem_eraseDups.1 hv)).2
  have hmem : ∀ k, k ∈ (named list).map emb ↔ k ∈ (named list).eraseDups.map emb := by simp
  have hnodup : ((named list).eraseDups.map emb).Nodup := (nodup_eraseDups _).map hemb
  have hcard :
      ((names.map (SelAssoc.kept emb) ++ withClass cos ((named list).eraseDups.map emb)).map
      SelAssoc.id).toFinset.card ≤ max := by
    refine Nat.le_trans (Finset.card_le_card fun k hk => ?_) hroom
    rw [List.mem_toFinset, List.map_append, ids_withClass] at hk ⊢
    rwa [List.mem_append, hmem, ← List.mem_append]
  obtain ⟨tab', htab', hlast⟩ := selectAssocs_keeps h hcard
  refine ⟨tab', ?_, hlast.congr (lastNamed_withClass _ cos hmem)⟩
  rw [hids, storeAssocs_eq (by rwa [ids_withClass]), htab']

/-- A definition adds what it names to the table, or cannot be read. -/
theorem fillTab_cases (hmax : max < 2 ^ 64) (hemb : Function.Injective emb)
    (hcast : ∀ a ∈ definedNames str, a.id < 2 ^ 32 ∧ cast a.id = emb a.id)
    (h : LastOf SelAssoc.id (names.map (SelAssoc.kept emb)) tab)
    (hroom : ((names ++ definedNames str).map SelAssoc.id).toFinset.card ≤ max) :
    (∃ tab', fillTab max cast tab str = .ok tab'
        ∧ LastOf SelAssoc.id ((names ++ definedNames str).map (SelAssoc.kept emb)) tab')
      ∨ fillTab max cast tab str = .error .exit ∧ ¬ WellDefined str := by
  rcases hsplit : strchr '=' str with _ | ⟨cls, list⟩
  · refine Or.inr ⟨by rw [fillTab, hsplit], ?_⟩
    rintro ⟨cls, list, cos, hsome, -⟩
    rw [hsplit] at hsome
    cases hsome
  have hfill : fillTab max cast tab str = numberOf cls >>= fun cos =>
      listToTab list max >>= fun ids =>
      storeAssocs max tab (withClass (cos % 2 ^ 32) (ids.map cast)) := by
    rw [fillTab, hsplit]
    rfl
  rw [hfill]
  rcases hcls : numberOf cls with e | cos
  · refine Or.inr ⟨by rw [numberOf_error hcls]; rfl, ?_⟩
    rintro ⟨cls', list', cos, hsome, hcos, -⟩
    rw [hsplit] at hsome
    obtain ⟨rfl, rfl⟩ := Prod.mk.inj (Option.some.inj hsome)
    rw [hcls] at hcos
    cases hcos
  have hnames := definedNames_eq hsplit hcls
  rcases listToTab_cases list hmax with htab | ⟨htab, hunread⟩ <;> rw [htab]
  · rw [hnames] at hcast hroom ⊢
    exact Or.inl (storeAssocs_keeps hemb (fun v hv => hcast _ (List.mem_map_of_mem hv)) h hroom)
  · refine Or.inr ⟨rfl, ?_⟩
    rintro ⟨cls', list', cos', hsome, -, hread⟩
    rw [hsplit] at hsome
    obtain ⟨rfl, rfl⟩ := Prod.mk.inj (Option.some.inj hsome)
    exact hread hunread

end Defined

/-! ## Runs -/

/-- What a definition names as cores. -/
def coreNames (str : List Char) : List (SelAssoc Nat) :=
  if isLlcAssoc str then definedNames (str.drop 4)
  else if isCoreAssoc str then definedNames (str.drop 5)
  else []

/-- What a definition names as processes. -/
def taskNames (str : List Char) : List (SelAssoc Nat) :=
  if isLlcAssoc str ∨ isCoreAssoc str then []
  else if isPidAssoc str then definedNames (str.drop 4)
  else []

/-- A definition of one of the forms, with a class and a list that can be read. -/
def ReadsAssoc (str : List Char) : Prop :=
  if isLlcAssoc str then WellDefined (str.drop 4)
  else if isCoreAssoc str then WellDefined (str.drop 5)
  else isPidAssoc str ∧ WellDefined (str.drop 4)

/-- The definitions in a sequence of options. -/
def assocDefs (opts : List (List Char)) : List (List Char) := opts.flatMap (strtok ';')

/-- A sequence of options. -/
def associations (opts : List (List Char)) : Except Halt SelAssocs :=
  opts.foldlM selfnAllocationAssoc noneAssociated

/-- The ids are numbers below `bound`, and a table of `max` entries has room for them. -/
def IdsFit (max bound : Nat) (names : List (SelAssoc Nat)) : Prop :=
  (∀ a ∈ names, a.id < bound) ∧ (names.map SelAssoc.id).toFinset.card ≤ max

/-- The ids of definitions are cores and processes for which there is room. -/
def DefsFit (defs : List (List Char)) : Prop :=
  IdsFit pqosMaxCores (2 ^ 32) (defs.flatMap coreNames)
    ∧ IdsFit selAssocPidMax (2 ^ 31) (defs.flatMap taskNames)

/-- Each core and process that was named has one entry, with the class of the last definition that
named it, and there are no other entries. -/
structure LastAssociated (defs : List (List Char)) (sel : SelAssocs) : Prop where
  cores : LastOf SelAssoc.id (defs.flatMap coreNames) sel.selAssocTab
  tasks : LastOf SelAssoc.id ((defs.flatMap taskNames).map (SelAssoc.kept (Nat.cast : Nat → Int)))
    sel.selAssocPidTab

section Run

variable {defs more : List (List Char)} {sel : SelAssocs} {str arg : List Char}
  {names : List (SelAssoc Nat)} {max bound : Nat}

theorem IdsFit.of_append {more : List (SelAssoc Nat)} (h : IdsFit max bound (names ++ more)) :
    IdsFit max bound names :=
  ⟨fun a ha => h.1 a (List.mem_append_left _ ha), Nat.le_trans (card_ids_le names more) h.2⟩

theorem DefsFit.of_append (h : DefsFit (defs ++ more)) : DefsFit defs := by
  unfold DefsFit at h ⊢
  rw [List.flatMap_append, List.flatMap_append] at h
  exact ⟨h.1.of_append, h.2.of_append⟩

theorem kept_id (l : List (SelAssoc Nat)) : l.map (SelAssoc.kept id) = l := List.map_id' l

/-- A list of cores adds what it names, or cannot be read. -/
theorem fillCoreTab_cases {tab : List (SelAssoc Nat)} (h : LastOf SelAssoc.id names tab)
    (hform : isLlcAssoc str ∨ isCoreAssoc str)
    (hfit : IdsFit pqosMaxCores (2 ^ 32) (names ++ coreNames str)) :
    (∃ tab', fillCoreTab tab str = .ok tab' ∧ LastOf SelAssoc.id (names ++ coreNames str) tab')
      ∨ fillCoreTab tab str = .error .exit ∧ ¬ ReadsAssoc str := by
  have htext : ∀ s : List Char, IdsFit pqosMaxCores (2 ^ 32) (names ++ definedNames s) →
      (∃ tab', fillTab pqosMaxCores (· % 2 ^ 32) tab s = .ok tab'
          ∧ LastOf SelAssoc.id (names ++ definedNames s) tab')
        ∨ fillTab pqosMaxCores (· % 2 ^ 32) tab s = .error .exit ∧ ¬ WellDefined s := by
    intro s hfit
    have hcast : ∀ a ∈ definedNames s, a.id < 2 ^ 32 ∧ a.id % 2 ^ 32 = id a.id := fun a ha => by
      have hlt := hfit.1 a (List.mem_append_right _ ha)
      exact ⟨hlt, Nat.mod_eq_of_lt hlt⟩
    have hcases := @fillTab_cases Nat _ pqosMaxCores (· % 2 ^ 32) id names tab s (by decide)
      Function.injective_id hcast (by rwa [kept_id]) hfit.2
    rwa [kept_id] at hcases
  unfold coreNames at hfit ⊢
  unfold fillCoreTab ReadsAssoc
  split_ifs at hfit ⊢ with hllc hcore
  · exact htext _ hfit
  · exact htext _ hfit
  · exact absurd hform (by simp [hllc, hcore])

/-- A list of processes adds what it names, or cannot be read. -/
theorem fillPidTab_cases {tab : List (SelAssoc Int)}
    (h : LastOf SelAssoc.id (names.map (SelAssoc.kept (Nat.cast : Nat → Int))) tab)
    (hfit : IdsFit selAssocPidMax (2 ^ 31) (names ++ definedNames (str.drop 4))) :
    (∃ tab', fillPidTab tab str = .ok tab'
        ∧ LastOf SelAssoc.id ((names ++ definedNames (str.drop 4)).map
          (SelAssoc.kept (Nat.cast : Nat → Int))) tab')
      ∨ fillPidTab tab str = .error .exit ∧ ¬ WellDefined (str.drop 4) := by
  refine fillTab_cases (by decide) (fun v w hvw => Int.ofNat.inj hvw) (fun a ha => ?_) h hfit.2
  have hlt := hfit.1 a (List.mem_append_right _ ha)
  exact ⟨by omega, pidT_of_lt hlt⟩

/-- One definition. -/
theorem parseAllocationAssoc_cases (h : LastAssociated defs sel) (hfit : DefsFit (defs ++ [str])) :
    (∃ sel', parseAllocationAssoc sel str = .ok sel' ∧ LastAssociated (defs ++ [str]) sel')
      ∨ parseAllocationAssoc sel str = .error .exit ∧ ¬ ReadsAssoc str := by
  obtain ⟨hcores, htasks⟩ := h
  obtain ⟨hfitCores, hfitTasks⟩ := hfit
  rw [List.flatMap_append, List.flatMap_singleton] at hfitCores hfitTasks
  have hnext : ∀ sel', LastOf SelAssoc.id
      (defs.flatMap coreNames ++ coreNames str) sel'.selAssocTab →
      LastOf SelAssoc.id ((defs.flatMap taskNames ++ taskNames str).map
        (SelAssoc.kept (Nat.cast : Nat → Int))) sel'.selAssocPidTab →
      LastAssociated (defs ++ [str]) sel' := fun sel' hc ht => by
    refine ⟨?_, ?_⟩ <;> rwa [List.flatMap_append, List.flatMap_singleton]
  unfold parseAllocationAssoc
  split_ifs with hform hpid
  · have hnone : taskNames str = [] := if_pos hform
    rcases fillCoreTab_cases hcores hform hfitCores with ⟨tab', htab', hlast⟩ | ⟨hexit, hbad⟩
    · rw [htab']
      exact Or.inl ⟨_, rfl, hnext _ hlast (by rwa [hnone, List.append_nil])⟩
    · rw [hexit]
      exact Or.inr ⟨rfl, hbad⟩
  · rw [not_or] at hform
    have hnone : coreNames str = [] := by rw [coreNames, if_neg hform.1, if_neg hform.2]
    have hsome : taskNames str = definedNames (str.drop 4) := by
      rw [taskNames, if_neg (not_or.2 hform), if_pos hpid]
    rw [hsome] at hfitTasks hnext
    rcases fillPidTab_cases htasks hfitTasks with ⟨tab', htab', hlast⟩ | ⟨hexit, hbad⟩
    · rw [htab']
      exact Or.inl ⟨_, rfl, hnext _ (by rwa [hnone, List.append_nil]) hlast⟩
    · rw [hexit]
      refine Or.inr ⟨rfl, ?_⟩
      rw [ReadsAssoc, if_neg hform.1, if_neg hform.2]
      exact fun hread => hbad hread.2
  · rw [not_or] at hform
    refine Or.inr ⟨rfl, ?_⟩
    rw [ReadsAssoc, if_neg hform.1, if_neg hform.2]
    exact fun hread => hpid hread.1

/-- One option. -/
theorem selfnAllocationAssoc_cases (h : LastAssociated defs sel)
    (hfit : DefsFit (defs ++ strtok ';' arg)) :
    (∃ sel', selfnAllocationAssoc sel arg = .ok sel' ∧ LastAssociated (defs ++ strtok ';' arg) sel')
      ∨ selfnAllocationAssoc sel arg = .error .exit
        ∧ (arg = [] ∨ ∃ str ∈ strtok ';' arg, ¬ ReadsAssoc str) := by
  unfold selfnAllocationAssoc
  split_ifs with harg
  · exact Or.inr ⟨rfl, Or.inl harg⟩
  have hone : (strtok ';' arg).flatMap (fun str => [str]) = strtok ';' arg :=
    List.flatMap_singleton' _
  have hcases := except_foldlM_cases (fun defs sel => LastAssociated defs sel) DefsFit
    (fun str => ¬ ReadsAssoc str) DefsFit.of_append
    (fun str _ _ _ h hfit => parseAllocationAssoc_cases h hfit) h (by rwa [hone])
  rw [hone] at hcases
  exact hcases.imp_right fun hbad => ⟨hbad.1, Or.inr hbad.2⟩

end Run

/-- Options whose ids fit the tables leave each id with the class of the last definition that named
it, and nothing else; they only fail where a definition cannot be read. -/
theorem associations_last (opts : List (List Char)) (hfit : DefsFit (assocDefs opts)) :
    (∃ sel, associations opts = .ok sel ∧ LastAssociated (assocDefs opts) sel)
      ∨ associations opts = .error .exit
        ∧ ∃ arg ∈ opts, arg = [] ∨ ∃ str ∈ strtok ';' arg, ¬ ReadsAssoc str := by
  have hstart : LastAssociated [] noneAssociated := ⟨LastOf.nil, LastOf.nil⟩
  exact except_foldlM_cases (fun defs sel => LastAssociated defs sel) DefsFit
    (fun arg => arg = [] ∨ ∃ str ∈ strtok ';' arg, ¬ ReadsAssoc str) DefsFit.of_append
    (fun _ _ _ _ h hfit => selfnAllocationAssoc_cases h hfit) hstart hfit

/-- Cores and processes that are named again, within a list and by a later option. -/
def reassociated : List (List Char) :=
  ["llc:1=0-2;core:2=2,5,2".toList, "pid:3=7".toList, "CORE:0=0;pid:4=7,9".toList]

theorem associations_last_reassociated :
    DefsFit (assocDefs reassociated)
      ∧ ∃ sel, associations reassociated = .ok sel
      ∧ LastAssociated (assocDefs reassociated) sel := by
  have hfit : DefsFit (assocDefs reassociated) := by
    unfold DefsFit IdsFit
    decide +kernel
  have hok : (associations reassociated).isOk = true := by decide +kernel
  refine ⟨hfit, (associations_last reassociated hfit).resolve_right ?_⟩
  rintro ⟨hexit, -⟩
  rw [hexit] at hok
  cases hok

end Pqos
