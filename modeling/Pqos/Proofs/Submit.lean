import Pqos.Proofs.ClassText
import Pqos.Proofs.CpuList
import Pqos.Proofs.Split
import Pqos.Proofs.StoreRuns
import Pqos.Submit

/-!
# The split in force

What the commands of an adjustment are told is read as the split of its quota, each core and each
socket once. So when they all succeed, the split is in force whatever was before. Whether they do or
not, nothing but the cores' classes and what class 2 has is touched, and no core gets any class but
those two.
-/

namespace Pqos

open CText Prog Refine Distinct

/-! ## What settings change -/

namespace Setting

/-- Where a setting is kept. -/
def place : Setting → Place
  | l3 socket c _ _ => .l3 socket c
  | l2 l2id c _ => .l2 l2id c
  | mba socket c _ => .mba socket c
  | core lcore _ => .core lcore
  | task t _ => .task t

variable {rules : StoreRules} {set : Setting} {a a' : Store} {q : Place}

theorem put_sameAt (h : set.place ≠ q) (a : Store) : Store.SameAt q a (set.put rules a) := by
  unfold Store.SameAt
  cases set with
  | l3 socket c scope mask =>
    rcases hm : a.l3 (socket, c) with _ | m <;> simp only [put, hm]
    have hne : Place.l3 socket ((L3ca.mk c m).withMask scope mask).classId ≠ q := by
      rwa [L3ca.withMask_classId]
    exact Store.lookup_putL3.trans (if_neg hne)
  | l2 l2id c mask => exact Store.lookup_putL2.trans (if_neg h)
  | mba socket c rate => exact Store.lookup_putMba.trans (if_neg h)
  | core lcore c => exact Store.lookup_move.trans (if_neg (by simpa [place, eq_comm] using h))
  | task t c => exact Store.lookup_moveTasks.trans (if_neg (by simpa [place, eq_comm] using h))

theorem half_sameAt (h : set.place ≠ q) (hhalf : set.half rules a a') : Store.SameAt q a a' := by
  cases set with
  | l3 socket c scope mask =>
    obtain ⟨m, -, hhalf⟩ := hhalf
    have hne : Place.l3 socket ((L3ca.mk c m).withMask scope mask).classId ≠ q := by
      rwa [L3ca.withMask_classId]
    exact Store.lookup_halfL3 hhalf hne
  | _ => exact hhalf.elim

/-- Among settings of different places each is made as if it were alone. -/
theorem foldl_put_at {l : List Setting} (hnodup : (l.map place).Nodup) (hset : set ∈ l)
    (a : Store) :
    ∃ a₀, Store.SameAt set.place a a₀
      ∧ Store.SameAt set.place (set.put rules a₀) (l.foldl (fun a set => set.put rules a) a) := by
  have hF : Frame (Store.SameAt set.place) := Frame.eq fun a : Store => a.lookup set.place
  induction l generalizing a with
  | nil => cases hset
  | cons first l ih =>
    rw [List.map_cons, List.nodup_cons] at hnodup
    rcases List.mem_cons.1 hset with rfl | hset
    · have hrest : ∀ other ∈ l, other.place ≠ set.place := fun other hother heq =>
        hnodup.1 (heq ▸ List.mem_map_of_mem hother)
      exact ⟨a, rfl, foldl_frame hF fun other hother => put_sameAt (hrest other hother)⟩
    · obtain ⟨a₀, hsame, hput⟩ := ih hnodup.2 hset (first.put rules a)
      refine ⟨a₀, hF.trans (put_sameAt (fun heq => hnodup.1 ?_) a) hsame, hput⟩
      exact heq ▸ List.mem_map_of_mem hset

end Setting

/-! ## What the commands are told -/

/-- A list of cores has a comma behind each. -/
theorem coresText_list (cores : List Nat) (hlt : ∀ k ∈ cores, k < 2 ^ 32) :
    ListText (cores.map .one ++ [.empty]) (coresText cores) := by
  refine ⟨by simp, cores.map (Nat.toDigits 10) ++ [[]], ?_, ?_⟩
  · refine List.rel_append ?_ (.cons (.empty [] (by simp)) .nil)
    refine List.forall₂_map_left_iff.2
      (List.forall₂_map_right_iff.2 (List.forall₂_same.2 fun k hk => ?_))
    have hlt := hlt k hk
    exact .one [] _ (by simp) ⟨Or.inl (digits_toDigits k), by omega⟩
  · induction cores with
    | nil => rfl
    | cons k cores ih =>
      have ih := ih fun j hj => hlt j (List.mem_cons_of_mem k hj)
      obtain ⟨t, rest, hrest⟩ := List.exists_cons_of_ne_nil
        (List.append_ne_nil_of_right_ne_nil (cores.map (Nat.toDigits 10)) (List.cons_ne_nil [] []))
      have hcons : coresText (k :: cores) = Nat.toDigits 10 k ++ [','] ++ coresText cores := rfl
      rw [hcons, List.map_cons, List.cons_append, ih, hrest, List.intercalate_cons_cons]

theorem length_le_coreNums {cores : List Nat} (hnodup : cores.Nodup)
    (hlt : ∀ k ∈ cores, k < coreNums) :
    cores.length ≤ pqosMaxCores := by
  have hle := (hnodup.subperm fun k hk => List.mem_range.2 (hlt k hk)).length_le
  rw [List.length_range] at hle
  exact Nat.le_trans hle (by decide)

theorem listToTab_cores {cores : List Nat} (hnodup : cores.Nodup)
    (hlt : ∀ k ∈ cores, k < coreNums) :
    listToTab (coresText cores) pqosMaxCores = .ok cores := by
  have hvalues : (cores.map NumItem.one ++ [NumItem.empty]).flatMap (NumItem.walked pqosMaxCores)
      = cores := by
    simp [List.flatMap_map, NumItem.walked]
  have hsmall : ∀ k ∈ cores, k < 2 ^ 32 := fun k hk => Nat.lt_trans (hlt k hk) (by decide)
  rw [listToTab_run (coresText_list cores hsmall) (by decide), hvalues, eraseDups_of_nodup hnodup,
    List.take_of_length_le (length_le_coreNums hnodup hlt)]

theorem foldlM_putAssoc {ι : Type} {max : Nat} {entries tab : List (SelAssoc ι)}
    (h : tab.length + entries.length ≤ max) :
    entries.foldlM (putAssoc max) tab = .ok (tab ++ entries) := by
  induction entries generalizing tab with
  | nil => rw [List.append_nil]; rfl
  | cons a entries ih =>
    rw [List.length_cons] at h
    have hput : putAssoc max tab a = .ok (tab ++ [a]) := if_neg (by omega)
    rw [List.foldlM_cons, hput]
    refine (@ih (tab ++ [a]) ?_).trans (by rw [List.append_assoc, List.singleton_append])
    rw [List.length_append, List.length_singleton]
    omega

/-- One option with a class and a list of cores. -/
theorem associations_cores {cls : List Char} {c : Nat} (hcls : Digits 10 cls c) (hc : c < 2 ^ 32)
    {cores : List Nat} (hnodup : cores.Nodup) (hlt : ∀ k ∈ cores, k < coreNums) :
    associations ["llc:".toList ++ (cls ++ '=' :: coresText cores)]
      = .ok { noneAssociated with selAssocTab := withClass c cores } := by
  have hsmall : ∀ k ∈ cores, k < 2 ^ 32 := fun k hk => Nat.lt_trans (hlt k hk) (by decide)
  have hclean : ';' ∉ cls ++ '=' :: coresText cores := by
    simp only [List.mem_append, List.mem_cons, not_or]
    exact ⟨fun hmem => isDigit_not_sign (isDigit_mono (by decide) (hcls.digit _ hmem)) (by simp),
      by decide, fun hmem => (coresText_list cores hsmall).not_sign hmem (by simp)⟩
  have hword : strtok ';' ("llc:".toList ++ (cls ++ '=' :: coresText cores))
      = ["llc:".toList ++ (cls ++ '=' :: coresText cores)] := by
    refine strtok_word (List.cons_ne_nil _ _) fun hmem => ?_
    rcases List.mem_append.1 hmem with hmem | hmem
    · revert hmem
      decide
    · exact hclean hmem
  have hsplit : strchr '=' (cls ++ '=' :: coresText cores) = some (cls, coresText cores) :=
    strchr_append fun hmem =>
      isDigit_not_sign (isDigit_mono (by decide) (hcls.digit _ hmem)) (by simp)
  have hkeep : cores.map (· % 2 ^ 32) = cores := by
    conv_rhs => rw [← List.map_id cores]
    exact List.map_congr_left fun k hk => Nat.mod_eq_of_lt (hsmall k hk)
  have hstore : storeAssocs pqosMaxCores [] (withClass c cores) = .ok (withClass c cores) := by
    rw [storeAssocs, if_pos rfl]
    split_ifs with hnil
    · rw [hnil]
    · refine foldlM_putAssoc ?_
      rw [List.length_nil, Nat.zero_add, withClass, List.length_map]
      exact length_le_coreNums hnodup hlt
  have hfill : fillCoreTab [] ("llc:".toList ++ (cls ++ '=' :: coresText cores))
      = .ok (withClass c cores) := by
    change fillTab pqosMaxCores (· % 2 ^ 32) [] (cls ++ '=' :: coresText cores) = _
    simp only [fillTab, hsplit, Main.strtouint64, Main.strlisttotab,
      numberOf_decimal hcls (by omega),
      listToTab_cores hnodup hlt, bind, Except.bind, Nat.mod_eq_of_lt hc, hkeep, hstore]
  have hparse : parseAllocationAssoc noneAssociated
      ("llc:".toList ++ (cls ++ '=' :: coresText cores))
      = .ok { noneAssociated with selAssocTab := withClass c cores } := by
    have hform : isLlcAssoc ("llc:".toList ++ (cls ++ '=' :: coresText cores)) = true := rfl
    rw [parseAllocationAssoc, if_pos (Or.inl hform)]
    simp only [noneAssociated, hfill, bind, Except.bind, pure, Except.pure]
  have harg : "llc:".toList ++ (cls ++ '=' :: coresText cores) ≠ [] := by simp
  rw [associations, List.foldlM_cons, selfnAllocationAssoc, if_neg harg, hword, List.foldlM_cons,
    hparse]
  rfl

/-- A definition of one class with a number. -/
theorem classDefText_number (type : SelAllocType) {cls : List Char} {c n : Nat}
    (hcls : Digits 10 cls c) (hn : n < 2 ^ 64) :
    ClassDefText ⟨type, none, [⟨.both, c, n⟩]⟩
      (type.text ++ ':' :: (cls ++ '=' :: Nat.toDigits 10 n)) := by
  refine ⟨type.text, [], [cls ++ '=' :: Nat.toDigits 10 n],
    by simp [strcasecmp], rfl, .cons ?_ .nil, by simp [List.intercalate]⟩
  exact ⟨cls, [], _, hcls, by simp [UpdateScope.letters], ⟨Or.inl (digits_toDigits n), hn⟩, rfl⟩

section Commands

variable {σ : Type} {b : PidBackend σ} {view : σ → Store} {rules : StoreRules}
  {Fits : AllocCall → Prop}
  (hkeep : Keeping b view rules Fits) (htakes : Takes view Fits) (p : Platform)
include hkeep htakes

theorem assocCommand_does {cls : List Char} {c : Nat} (hcls : Digits 10 cls c) (hc : c < 2 ^ 32)
    {cores : List Nat} (hnodup : cores.Nodup) (hlt : ∀ k ∈ cores, k < coreNums) :
    Shows (runView view) (Does nonnegative rules (cores.map fun k => .core k c, true))
      (pqosAlloc p b [] ["llc:".toList ++ (cls ++ '=' :: coresText cores)]) := by
  have hreads := pqosAlloc_reads hkeep htakes p [] (associations_cores hcls hc hnodup hlt)
  simpa [runSettings, allocDefs, readAll, andThen, assocSettings, noneAssociated, withClass,
    Function.comp_def] using hreads

theorem classCommand_does (type : SelAllocType) {cls : List Char} {c n : Nat}
    (hcls : Digits 10 cls c) (hc : c < 2 ^ 32) (hn : n < 2 ^ 64) (hzero : n ≠ 0) :
    Shows (runView view)
      (Does nonnegative rules (cosSettings p.cpu type none .both c (BitVec.ofNat 64 n), true))
      (pqosAlloc p b [type.text ++ ':' :: (cls ++ '=' :: Nat.toDigits 10 n)] []) := by
  have hreads :=
    pqosAlloc_reads hkeep htakes p [type.text ++ ':' :: (cls ++ '=' :: Nat.toDigits 10 n)]
    (rfl : associations [] = .ok noneAssociated)
  have hvalid : ClassDef.Valid ⟨type, none, [⟨.both, c, n⟩]⟩ :=
    ⟨by simp, by simpa using hc, by simpa using hzero, by simp, nofun⟩
  have htexts : List.Forall₂ ClassDefText [⟨type, none, [⟨.both, c, n⟩]⟩]
      [type.text ++ ':' :: (cls ++ '=' :: Nat.toDigits 10 n)] :=
      .cons (classDefText_number type hcls hn) .nil
  have hdefs : allocDefs [type.text ++ ':' :: (cls ++ '=' :: Nat.toDigits 10 n)]
      = [type.text ++ ':' :: (cls ++ '=' :: Nat.toDigits 10 n)] := by
    simpa [List.intercalate] using allocDefs_texts (by simp) htexts
  rw [runSettings, hdefs, readAll,
    readClass_text p.cpu hvalid (classDefText_number type hcls hn)] at hreads
  simpa [readAll, andThen, assocSettings, noneAssociated, ClassDef.settings, ClassDef.ids]
    using hreads

end Commands

/-! ## Runs of commands -/

section Runs

variable {σ : Type} {p : Platform} {b : PidBackend σ} {view : σ → Store} {rules : StoreRules}

/-- The settings of each command. -/
def CommandsDo (p : Platform) (b : PidBackend σ) (view : σ → Store) (rules : StoreRules) :
    List PqosArgs → List (List Setting) → Prop :=
  List.Forall₂ fun args settings => Shows (runView view) (Does nonnegative rules (settings, true))
    (pqosAlloc p b args.classArgs args.assocArgs)

variable {commands : List PqosArgs} {groups : List (List Setting)}

/-- What every setting keeps is kept, whatever the commands end with. -/
theorem runCommands_frame (h : CommandsDo p b view rules commands groups) {F : Store → Store → Prop}
    (hF : Frame F) (hput : ∀ settings ∈ groups, ∀ set ∈ settings, ∀ a, F a (set.put rules a))
    (hhalf : ∀ settings ∈ groups, ∀ set ∈ settings, ∀ a a', set.half rules a a' → F a a') (s : σ) :
    F (view s) (view (runCommands p b commands s).2) := by
  induction h generalizing s with
  | nil => exact hF.refl _
  | cons hdoes _ ih =>
    have hfirst := SetsAll.frame hF (hput _ List.mem_cons_self) (hhalf _ List.mem_cons_self)
      (hdoes ⟨s, 0⟩)
    exact hF.trans hfirst (ih (fun settings hmem => hput _ (List.mem_cons_of_mem _ hmem))
      (fun settings hmem => hhalf _ (List.mem_cons_of_mem _ hmem)) _)

/-- What a command ended with, where it did not fail. -/
def Succeeded (r : Except Halt Int) : Prop := ∃ ret, r = .ok ret ∧ 0 ≤ ret

/-- Commands that succeed make all their settings. -/
theorem runCommands_all (h : CommandsDo p b view rules commands groups) (s : σ)
    (hall : ∀ r ∈ (runCommands p b commands s).1, Succeeded r) :
    view (runCommands p b commands s).2
      = groups.flatten.foldl (fun a set => set.put rules a) (view s) := by
  induction h generalizing s with
  | nil => rfl
  | cons hdoes _ ih =>
    obtain ⟨ret, hret, hnonneg⟩ := hall _ List.mem_cons_self
    have hfirst := hdoes ⟨s, 0⟩
    unfold Does at hfirst
    rw [passed_ok.2 ⟨ret, hret, decide_eq_true hnonneg⟩] at hfirst
    have hview := (hfirst.1 () rfl).2
    have hrest := ih _ fun r hr => hall r (List.mem_cons_of_mem _ hr)
    unfold runView at hview
    rw [hview] at hrest
    rw [List.flatten_cons, List.foldl_append]
    exact hrest

end Runs

/-! ## An adjustment -/

/-- The cores of a kind, in order. -/
def coresWhere (P : Fin coreNums → Bool) : List Nat :=
  ((List.finRange coreNums).filter P).map Fin.val

theorem mem_coresWhere {P : Fin coreNums → Bool} {k : Nat} :
    k ∈ coresWhere P ↔ ∃ h : k < coreNums, P ⟨k, h⟩ = true := by
  simp only [coresWhere, List.mem_map, List.mem_filter, List.mem_finRange, true_and]
  exact ⟨fun ⟨i, hi, hk⟩ => ⟨hk ▸ i.isLt, by subst hk; exact hi⟩, fun ⟨h, hP⟩ => ⟨⟨k, h⟩, hP, rfl⟩⟩

theorem nodup_coresWhere (P : Fin coreNums → Bool) : (coresWhere P).Nodup :=
  ((List.nodup_finRange coreNums).filter _).map Fin.val_injective

def onlineCores (s : IsolationVars) : List Nat := coresWhere fun i => decide (s.allCores i = 1)

def offlineCores (s : IsolationVars) : List Nat := coresWhere fun i => decide (¬ s.allCores i = 1)

theorem coreLists_coresWhere (s : IsolationVars) :
    coreLists s.allCores = (coresText (onlineCores s), coresText (offlineCores s)) :=
  (coreLists_fold s.allCores _ _).trans rfl

/-- The settings that an adjustment to the variables means, command by command. -/
def splitSettings (cpu : CpuInfo) (s : IsolationVars) : List (List Setting) :=
  [(onlineCores s).map fun k => .core k 1, (offlineCores s).map fun k => .core k 2,
    cpu.getSockets.map fun socket => .l3 socket 2 .both (BitVec.ofNat 64 (currentOfflineLlc s)),
    cpu.getSockets.map fun socket => .mba socket 2 s.offlineMbaPercent.toNat]

theorem currentOfflineLlc_range (s : IsolationVars) :
    currentOfflineLlc s ≠ 0 ∧ currentOfflineLlc s < 2 ^ 11 := by
  unfold currentOfflineLlc
  rw [show llcWays = 2 ^ 11 - 1 from rfl, shift_mask]
  have hle : 2 ^ (11 - s.onlineLlcWays.toNat) ≤ 2 ^ 11 :=
    Nat.pow_le_pow_right (by decide) (by omega)
  dsimp only
  split_ifs <;> omega

section Adjust

variable {σ : Type} {b : PidBackend σ} {view : σ → Store} {rules : StoreRules}
  {Fits : AllocCall → Prop}
  (hkeep : Keeping b view rules Fits) (htakes : Takes view Fits) (p : Platform)
include hkeep htakes

/-- The commands are told the split. -/
theorem submitCommands_do {s : IsolationVars} (hint : s.offlineMbaPercent < 2 ^ 31) :
    CommandsDo p b view rules (submitCommands (isolationSubmit s).1)
      (splitSettings p.cpu (isolationSubmit s).2) := by
  have hdigit : Digits 10 ['1'] 1 ∧ Digits 10 ['2'] 2 :=
    ⟨⟨by simp, List.all_eq_true.1 rfl, rfl⟩, ⟨by simp, List.all_eq_true.1 rfl, rfl⟩⟩
  have hlt : ∀ {P : Fin coreNums → Bool}, ∀ k ∈ coresWhere P, k < coreNums :=
    fun k hk => (mem_coresWhere.1 hk).1
  obtain ⟨n, hn, hten⟩ :
      ∃ n : Nat, (isolationSubmit s).2.offlineMbaPercent = n ∧ 10 ≤ n ∧ n < 2 ^ 31 := by
    refine ⟨(isolationSubmit s).2.offlineMbaPercent.toNat, ?_⟩
    unfold isolationSubmit
    dsimp only
    split_ifs <;> omega
  have hmba : ((BitVec.ofNat 64 n).setWidth 32).toNat = n := by
    rw [BitVec.toNat_setWidth, BitVec.toNat_ofNat]
    omega
  have honline : (isolationSubmit s).1.onlineCores = coresText (onlineCores s) :=
    congrArg Prod.fst (coreLists_coresWhere s)
  have hoffline : (isolationSubmit s).1.offlineCores = coresText (offlineCores s) :=
    congrArg Prod.snd (coreLists_coresWhere s)
  have hrate : percentText (isolationSubmit s).1.offlineMba = Nat.toDigits 10 n :=
    congrArg percentText hn
  have hmask : (isolationSubmit s).1.offlineLlc = currentOfflineLlc s := rfl
  have hsame : currentOfflineLlc (isolationSubmit s).2 = currentOfflineLlc s := by
    unfold currentOfflineLlc
    rfl
  obtain ⟨hne, hways⟩ := currentOfflineLlc_range s
  unfold submitCommands splitSettings
  rw [honline, hoffline, hrate, hn, Int.toNat_natCast, hmask, hsame]
  generalize currentOfflineLlc s = mask at hne hways
  refine .cons ?_ (.cons ?_ (.cons ?_ (.cons ?_ .nil)))
  · exact assocCommand_does hkeep htakes p hdigit.1 (by decide) (nodup_coresWhere _) hlt
  · exact assocCommand_does hkeep htakes p hdigit.2 (by decide) (nodup_coresWhere _) hlt
  · have htext : "llc:2=".toList ++ Nat.toDigits 10 mask
        = SelAllocType.l3ca.text ++ ':' :: (['2'] ++ '=' :: Nat.toDigits 10 mask) := by
      simp [SelAllocType.text]
    have hdoes := classCommand_does hkeep htakes p .l3ca hdigit.2 (by decide) (n := mask)
      (by omega) hne
    rw [← htext] at hdoes
    exact hdoes
  · have hdoes := classCommand_does hkeep htakes p .mba hdigit.2 (by decide) (n := n) (by omega)
      (by omega)
    have htext : "mba:2=".toList ++ Nat.toDigits 10 n
        = SelAllocType.mba.text ++ ':' :: (['2'] ++ '=' :: Nat.toDigits 10 n) := by
      simp [SelAllocType.text]
    rw [← htext] at hdoes
    simp only [cosSettings, hmba] at hdoes
    exact hdoes

end Adjust

/-! ## What a quota asks for -/

/-- The ways of the online service, rounded up. -/
def Quota.ways (q : Quota) : Nat := (⌊q.llc⌋₊ + 1023) / 1024

theorem getOnlineCores_ok {q : Quota} {s t : IsolationVars} (hcpu : q.cpu ≤ 16) (hllc : 0 ≤ q.llc)
    (hmembw : 0 ≤ q.membw) (h : getOnlineCores q (initCores s) = some t) :
    t.allCores = evenOnline ⌈q.cpu⌉₊ (fun _ => 0) ∧ t.onlineLlcWays = q.ways
      ∧ t.offlineMbaPercent = 100 - ⌊q.membw⌋ := by
  unfold getOnlineCores at h
  simp only [Option.bind_eq_bind, Option.bind_eq_some_iff] at h
  obtain ⟨whole, hwhole, cores, hcores, allCores, hall, mba, hmba, left, hleft, ways, hways, llc,
    hkb, online, honline, offline, -, hdone⟩ := h
  obtain rfl := Option.some.inj hdone
  rw [truncInt_of_nonneg hmembw, intResult_eq_some] at hmba
  rw [truncInt_of_nonneg hllc, intResult_eq_some] at hkb
  rw [truncInt_of_nonneg (by positivity), intResult_eq_some] at hways
  rw [intResult_eq_some] at hcores hleft honline
  obtain ⟨⟨rfl, -⟩, ⟨rfl, -⟩, ⟨rfl, -⟩⟩ := hmba, hkb, hways
  obtain ⟨⟨rfl, -⟩, ⟨rfl, -⟩, ⟨rfl, -⟩⟩ := hcores, hleft, honline
  refine ⟨?_, ?_, rfl⟩
  · rw [cores_eq hwhole, initCores] at hall
    have hfew : ⌈q.cpu⌉₊ ≤ 16 := Nat.ceil_le.2 (by exact_mod_cast hcpu)
    exact Option.some.inj (hall.symm.trans (setOnline_range (fun _ => 0) hfew))
  · have hfloor : ⌊q.llc / 1024⌋ = ⌊q.llc⌋ / 1024 := by
      exact_mod_cast Int.floor_div_natCast q.llc 1024
    have hint : ⌊q.llc⌋ = ⌊q.llc⌋₊ := (Int.natCast_floor_eq_floor hllc).symm
    dsimp only
    rw [hfloor, hint, Quota.ways, Int.tmod_eq_emod_of_nonneg (by positivity)]
    split_ifs <;> omega

/-- The split of a quota, in numbers. -/
theorem getOnlineCores_split {q : Quota} (hcpu : q.cpu ≤ 16) (hllc : 0 ≤ q.llc)
    (hmembw : 0 ≤ q.membw) (hq : q.Converts) (s : IsolationVars) : getOnlineCores q (initCores s)
      = some ⟨evenOnline ⌈q.cpu⌉₊ fun _ => 0, (max (11 - q.ways) 1 : Nat), q.ways,
        100 - ⌊q.membw⌋⟩ := by
  obtain ⟨n, left, h⟩ := getOnlineCores_eq hcpu hllc hq s
  obtain ⟨-, hn, hleft⟩ := getOnlineCores_ok hcpu hllc hmembw h
  obtain rfl : n = q.ways := Int.ofNat.inj hn
  obtain rfl : left = 100 - ⌊q.membw⌋ := hleft
  exact h

/-! ## Runs of adjustments -/

/-- The places that adjustments are about. -/
def Adjusted (cpu : CpuInfo) : Place → Prop
  | .core k => k < coreNums
  | .l3 socket c | .mba socket c => socket ∈ cpu.getSockets ∧ c = 2
  | .task _ | .l2 _ _ => False

/-- A core that gets a class gets one of the two. -/
def TwoClasses (a a' : Store) : Prop := ∀ k c, a'.cos k = some c → c = 1 ∨ c = 2 ∨ a.cos k = some c

/-- The split of the quota is in force. The online service has its CPUs, each a core with an even
number, and the others are for the offline jobs, with the ways that it leaves of each cache, at
least one, and with the bandwidth that it leaves, at least a tenth. -/
structure Isolated (rules : StoreRules) (cpu : CpuInfo) (q : Quota) (a : Store) : Prop where
  cores : ∀ k < coreNums, ∀ c, a.cos k = some c → c = if k % 2 = 0 ∧ k / 2 < ⌈q.cpu⌉₊ then 1 else 2
  ways : ∀ socket ∈ cpu.getSockets, ∀ m, a.l3 (socket, 2) = some m →
    m.dataMask = BitVec.ofNat 64 (2 ^ max (11 - q.ways) 1 - 1) ∧ m.codeMask = m.dataMask
  bandwidth : ∀ socket ∈ cpu.getSockets,
    a.mba (socket, 2) = some (rules.rate (max 10 (100 - ⌊q.membw⌋)).toNat)

theorem adjusted_place {cpu : CpuInfo} {s : IsolationVars} {settings : List Setting} {set : Setting}
    (hmem : settings ∈ splitSettings cpu s) (hset : set ∈ settings) : Adjusted cpu set.place := by
  have hcore : ∀ {P : Fin coreNums → Bool}, ∀ k ∈ coresWhere P, k < coreNums :=
    fun k hk => (mem_coresWhere.1 hk).1
  simp only [splitSettings, List.mem_cons, List.not_mem_nil, or_false] at hmem
  rcases hmem with rfl | rfl | rfl | rfl <;> obtain ⟨k, hk, rfl⟩ := List.mem_map.1 hset
  · exact hcore k hk
  · exact hcore k hk
  · exact ⟨hk, rfl⟩
  · exact ⟨hk, rfl⟩

theorem twoClasses_put {rules : StoreRules} {cpu : CpuInfo} {s : IsolationVars}
    {settings : List Setting}
    {set : Setting} (hmem : settings ∈ splitSettings cpu s) (hset : set ∈ settings) (a : Store) :
    TwoClasses a (set.put rules a) := by
  have hmove : ∀ {c : Nat} {l : List Nat}, c = 1 ∨ c = 2 → TwoClasses a (Store.move c l a) := by
    intro c l hc k d hd
    obtain ⟨-, rfl⟩ | ⟨-, hsame⟩ := Store.moved_eq_some hd
    · exact hc.imp_right Or.inl
    · exact Or.inr (Or.inr hsame)
  simp only [splitSettings, List.mem_cons, List.not_mem_nil, or_false] at hmem
  rcases hmem with rfl | rfl | rfl | rfl <;> obtain ⟨k, hk, rfl⟩ := List.mem_map.1 hset
  · exact hmove (Or.inl rfl)
  · exact hmove (Or.inr rfl)
  · intro j c hc
    have hsame : Store.SameAt (.core j) a
        ((Setting.l3 k 2 .both (BitVec.ofNat 64 (currentOfflineLlc s))).put rules a) :=
      Setting.put_sameAt (by simp [Setting.place]) a
    exact Or.inr (Or.inr (hsame.core ▸ hc))
  · exact fun j c hc => Or.inr (Or.inr hc)

theorem twoClasses_half {rules : StoreRules} {set : Setting} {a a' : Store}
    (h : set.half rules a a') :
    TwoClasses a a' := by
  intro k c hc
  cases set with
  | l3 socket d scope mask =>
    have hsame : Store.SameAt (.core k) a a' := Setting.half_sameAt (by simp [Setting.place]) h
    exact Or.inr (Or.inr (hsame.core ▸ hc))
  | _ => exact h.elim

/-- No place is set twice. -/
theorem nodup_places (cpu : CpuInfo) (s : IsolationVars) :
    ((splitSettings cpu s).flatten.map Setting.place).Nodup := by
  have hplaces : (splitSettings cpu s).flatten.map Setting.place
      = (onlineCores s ++ offlineCores s).map .core
        ++ (cpu.getSockets.map (Place.l3 · 2) ++ cpu.getSockets.map (Place.mba · 2)) := by
    simp [splitSettings, Setting.place, Function.comp_def]
  have hsockets : cpu.getSockets.Nodup := by
    rw [CpuInfo.getSockets, CpuInfo.ids_eq]
    exact nodup_eraseDups _
  have hdisjoint : ∀ k ∈ onlineCores s, k ∉ offlineCores s := by
    intro k hk hk'
    obtain ⟨_, hon⟩ := mem_coresWhere.1 hk
    obtain ⟨_, hoff⟩ := mem_coresWhere.1 hk'
    exact of_decide_eq_true hoff (of_decide_eq_true hon)
  rw [hplaces]
  refine List.Nodup.append ?_ (List.Nodup.append ?_ ?_ ?_) ?_
  · refine List.Nodup.map (fun _ _ => Place.core.inj) ?_
    exact (nodup_coresWhere _).append (nodup_coresWhere _) fun k hk hk' => hdisjoint k hk hk'
  · exact hsockets.map fun _ _ h => (Place.l3.inj h).1
  · exact hsockets.map fun _ _ h => (Place.mba.inj h).1
  · simp [List.Disjoint]
  · rintro _ hcore hother
    obtain ⟨k, -, rfl⟩ := List.mem_map.1 hcore
    simp at hother

/-- A mask for both is that of both. -/
theorem held_both {cdpOn : Bool} {c : Nat} {m : L3Masks} {mask : Word} :
    (((L3ca.mk c m).withMask .both mask).u.held cdpOn).dataMask = mask
      ∧ (((L3ca.mk c m).withMask .both mask).u.held cdpOn).codeMask
        = (((L3ca.mk c m).withMask .both mask).u.held cdpOn).dataMask := by
  cases m <;> cases cdpOn <;> exact ⟨rfl, rfl⟩

section Isolated

variable {rules : StoreRules} {cpu : CpuInfo} {s : IsolationVars} {q : Quota} {a a' : Store}

/-- What all of an adjustment's settings leave behind. -/
theorem splitSettings_isolated (hcores : s.allCores = evenOnline ⌈q.cpu⌉₊ fun _ => 0)
    (hways : s.onlineLlcWays = q.ways) (hmba : s.offlineMbaPercent = max 10 (100 - ⌊q.membw⌋)) :
    Isolated rules cpu q
      ((splitSettings cpu s).flatten.foldl (fun a set => set.put rules a) a) := by
  have hput : ∀ set ∈ (splitSettings cpu s).flatten, ∃ a₀, Store.SameAt set.place
      (set.put rules a₀)
      ((splitSettings cpu s).flatten.foldl (fun a set => set.put rules a) a) := by
    intro set hset
    obtain ⟨a₀, -, hlast⟩ := Setting.foldl_put_at (nodup_places cpu s) hset a
    exact ⟨a₀, hlast⟩
  refine ⟨fun k hk c hc => ?_, fun socket hsocket m hm => ?_, fun socket hsocket => ?_⟩
  · have hone : s.allCores ⟨k, hk⟩ = 1 ↔ k % 2 = 0 ∧ k / 2 < ⌈q.cpu⌉₊ := by
      rw [hcores, evenOnline]
      split_ifs with h <;> simp [h]
    have hclass : ∀ {d : Nat} {a₀ : Store}, Store.SameAt (.core k) ((Setting.core k d).put rules a₀)
        ((splitSettings cpu s).flatten.foldl (fun a set => set.put rules a) a) → c = d := by
      intro d a₀ hsame
      have hmove := hsame.core.symm.trans hc
      obtain ⟨-, rfl⟩ | ⟨hout, -⟩ := Store.moved_eq_some hmove
      · rfl
      · exact absurd (List.mem_singleton_self k) hout
    split_ifs with hquota
    · have hmem : k ∈ onlineCores s := mem_coresWhere.2 ⟨hk, decide_eq_true (hone.2 hquota)⟩
      obtain ⟨a₀, hsame⟩ := hput (.core k 1) (by simp [splitSettings, hmem])
      exact hclass hsame
    · have hmem : k ∈ offlineCores s := mem_coresWhere.2 ⟨hk, decide_eq_true (mt hone.1 hquota)⟩
      obtain ⟨a₀, hsame⟩ := hput (.core k 2) (by simp [splitSettings, hmem])
      exact hclass hsame
  · have hmask := currentOfflineLlc_eq hways
    obtain ⟨a₀, hsame⟩ := hput (.l3 socket 2 .both (BitVec.ofNat 64 (currentOfflineLlc s)))
      (by simp [splitSettings, hsocket])
    have hl3 := hsame.l3.symm.trans hm
    rw [hmask] at hl3
    rcases hm₀ : a₀.l3 (socket, 2) with _ | m₀ <;> simp only [Setting.put, hm₀] at hl3
    · cases hl3
    · simp only [Store.putL3, L3ca.withMask_classId, Function.update_self, Option.some.injEq] at hl3
      rw [← hl3]
      exact held_both
  · obtain ⟨a₀, hsame⟩ := hput (.mba socket 2 s.offlineMbaPercent.toNat)
      (by simp [splitSettings, hsocket])
    rw [hsame.mba, hmba]
    simp [Setting.put, Store.putMba]

end Isolated

theorem frame_twoClasses : Frame TwoClasses where
  refl _ _ _ hc := Or.inr (Or.inr hc)
  trans h h' k c hc := by
    obtain hone | htwo | hsame := h' k c hc
    · exact Or.inl hone
    · exact Or.inr (Or.inl htwo)
    · exact h k c hsame

/-- What is left of the bandwidth is an `int`. -/
theorem offlineMba_int {q : Quota} {s t : IsolationVars} (h : getOnlineCores q s = some t) :
    t.offlineMbaPercent < 2 ^ 31 := by
  unfold getOnlineCores at h
  simp only [Option.bind_eq_bind, Option.bind_eq_some_iff] at h
  obtain ⟨_, -, _, -, _, -, _, -, left, hleft, _, -, _, -, _, -, _, -, hdone⟩ := h
  obtain rfl := Option.some.inj hdone
  obtain ⟨rfl, -, hlt⟩ := intResult_eq_some.1 hleft
  exact hlt

section Run

variable {σ : Type} {b : PidBackend σ} {view : σ → Store} {rules : StoreRules}
  {Fits : AllocCall → Prop}
  (hkeep : Keeping b view rules Fits) (htakes : Takes view Fits) (p : Platform)
include hkeep htakes

/-- One adjustment. -/
theorem isolationAdjust_ok {st st' : Isolation σ} {q : Quota}
    (h : isolationAdjust p b st q = some st') :
    ∃ t, getOnlineCores q (initCores st.vars) = some t ∧ st'.vars = (isolationSubmit t).2
      ∧ ∃ commands, CommandsDo p b view rules commands (splitSettings p.cpu st'.vars)
        ∧ st'.ended = (runCommands p b commands st.lib).1
        ∧ st'.lib = (runCommands p b commands st.lib).2 := by
  obtain ⟨t, ht, hdone⟩ := Option.bind_eq_some_iff.1 h
  obtain rfl := Option.some.inj hdone
  exact ⟨t, ht, rfl, _, submitCommands_do hkeep htakes p (offlineMba_int ht), rfl, rfl⟩

/-- What every adjustment keeps. -/
theorem isolationAdjust_frame {st st' : Isolation σ} {q : Quota}
    (h : isolationAdjust p b st q = some st') :
    (∀ place, ¬ Adjusted p.cpu place → Store.SameAt place (view st.lib) (view st'.lib))
      ∧ TwoClasses (view st.lib) (view st'.lib) := by
  obtain ⟨t, -, -, commands, hdo, -, hlib⟩ := isolationAdjust_ok hkeep htakes p h
  rw [hlib]
  refine ⟨fun place hplace => ?_, ?_⟩
  · have hne : ∀ settings ∈ splitSettings p.cpu st'.vars, ∀ set ∈ settings, set.place ≠ place :=
      fun settings hmem set hset heq => hplace (heq ▸ adjusted_place hmem hset)
    exact runCommands_frame hdo (Frame.eq fun a : Store => a.lookup place)
      (fun settings hmem set hset => Setting.put_sameAt (hne settings hmem set hset))
      (fun settings hmem set hset a a' => Setting.half_sameAt (hne settings hmem set hset)) st.lib
  · exact runCommands_frame hdo frame_twoClasses
      (fun settings hmem set hset => twoClasses_put hmem hset)
      (fun _ _ _ _ _ _ => twoClasses_half) st.lib

/-- After any adjustments, whatever their commands ended with, nothing but the cores' classes and
class 2 has changed, and no core has got a class but those two. When the commands of the last one
succeed, the split of its quota is in force, whatever was before. -/
theorem isolationRun_isolates {qs : List Quota} {q : Quota} {st st' : Isolation σ}
    (h : (qs ++ [q]).foldlM (isolationAdjust p b) st = some st') :
    (∀ place, ¬ Adjusted p.cpu place → Store.SameAt place (view st.lib) (view st'.lib))
      ∧ TwoClasses (view st.lib) (view st'.lib)
      ∧ (q.cpu ≤ 16 → 0 ≤ q.llc → 0 ≤ q.membw → (∀ r ∈ st'.ended, Succeeded r) →
        Isolated rules p.cpu q (view st'.lib)) := by
  have hframe : ∀ {qs : List Quota} {st st' : Isolation σ},
      qs.foldlM (isolationAdjust p b) st = some st' →
      (∀ place, ¬ Adjusted p.cpu place → Store.SameAt place (view st.lib) (view st'.lib))
        ∧ TwoClasses (view st.lib) (view st'.lib) := by
    intro qs
    induction qs with
    | nil =>
      rintro st st' h
      obtain rfl := Option.some.inj h
      exact ⟨fun _ _ => rfl, frame_twoClasses.refl _⟩
    | cons q qs ih =>
      rintro st st' h
      rw [List.foldlM_cons] at h
      obtain ⟨st₁, hfirst, hrest⟩ := Option.bind_eq_some_iff.1 h
      obtain ⟨hsame, htwo⟩ := isolationAdjust_frame hkeep htakes p hfirst
      obtain ⟨hsame', htwo'⟩ := ih hrest
      exact ⟨fun place hplace => (hsame' place hplace).trans (hsame place hplace),
        frame_twoClasses.trans htwo htwo'⟩
  refine ⟨(hframe h).1, (hframe h).2, fun hcpu hllc hmembw hall => ?_⟩
  rw [List.foldlM_append] at h
  obtain ⟨st₁, -, hlast⟩ := Option.bind_eq_some_iff.1 h
  rw [List.foldlM_cons] at hlast
  obtain ⟨st₂, hadjust, hdone⟩ := Option.bind_eq_some_iff.1 hlast
  obtain rfl := Option.some.inj hdone
  obtain ⟨t, ht, hvars, commands, hdo, hended, hlib⟩ := isolationAdjust_ok hkeep htakes p hadjust
  obtain ⟨hcores, hways, hmba⟩ := getOnlineCores_ok hcpu hllc hmembw ht
  rw [hlib, runCommands_all hdo st₁.lib (by rwa [← hended]), hvars]
  refine splitSettings_isolated hcores hways ?_
  unfold isolationSubmit
  dsimp only
  rw [hmba]
  split_ifs <;> omega

end Run

/-- Two sockets with 16 cores each. -/
def twoSockets : Platform where
  initDone := true
  interface := .msr
  cap := [⟨true, .l3ca ⟨4, 11, 0, false, false⟩⟩, ⟨true, .mba ⟨8, 90, 10, true⟩⟩]
  cpu := ⟨(List.range 32).map fun k => ⟨k, k / 16, k / 16, k⟩, by decide, by decide⟩
  fails _ _ := false

/-- All of the cache and nearly all of the bandwidth are for the online service. -/
theorem isolationRun_isolates_aboveCache : ∃ st',
    ([] ++ [aboveCache]).foldlM (isolationAdjust twoSockets (hwPidBackend twoSockets))
        ⟨isolationVars, ⟨fun _ => 0, []⟩, []⟩ = some st'
      ∧ Isolated (msrRules twoSockets) twoSockets.cpu aboveCache (msrView twoSockets st'.lib) := by
  have hfit : twoSockets.FitsBanks := by
    refine ⟨fun c h => ?_, fun c h => ?_, fun c h => ?_⟩ <;> cases h <;> decide
  have hconverts : aboveCache.Converts := by
    refine ⟨?_, ?_, ?_, ?_⟩ <;> norm_num [aboveCache]
  have hrange : aboveCache.cpu ≤ 16 ∧ 0 ≤ aboveCache.llc ∧ 0 ≤ aboveCache.membw := by
    norm_num [aboveCache]
  have hways : aboveCache.ways = 20 := by norm_num [aboveCache, Quota.ways]
  have hceil : ⌈aboveCache.cpu⌉₊ = 3 := by
    rw [Nat.ceil_eq_iff (by decide)]
    norm_num [aboveCache]
  have hmembw : ⌊aboveCache.membw⌋ = 95 := by norm_num [aboveCache]
  have hcores : getOnlineCores aboveCache (initCores isolationVars)
      = some ⟨evenOnline 3 fun _ => 0, 1, 20, 5⟩ := by
    rw [getOnlineCores_split hrange.1 hrange.2.1 hrange.2.2 hconverts, hceil, hways, hmembw]
    rfl
  have hsucceed : (runCommands twoSockets (hwPidBackend twoSockets)
      (submitCommands (isolationSubmit ⟨evenOnline 3 fun _ => 0, 1, 20, 5⟩).1) ⟨fun _ => 0, []⟩).1
      = [.ok 1, .ok 1, .ok 1, .ok 1] := by decide +kernel
  have hrun : ([] ++ [aboveCache]).foldlM (isolationAdjust twoSockets (hwPidBackend twoSockets))
      ⟨isolationVars, ⟨fun _ => 0, []⟩, []⟩ = isolationAdjust twoSockets (hwPidBackend twoSockets)
        ⟨isolationVars, ⟨fun _ => 0, []⟩, []⟩ aboveCache := by
    rw [List.nil_append, List.foldlM_cons]
    exact bind_pure _
  obtain ⟨st', hst'⟩ : ∃ st', isolationAdjust twoSockets (hwPidBackend twoSockets)
      ⟨isolationVars, ⟨fun _ => 0, []⟩, []⟩ aboveCache = some st'
      ∧ st'.ended = [.ok 1, .ok 1, .ok 1, .ok 1] :=
    ⟨_, Option.bind_eq_some_iff.2 ⟨_, hcores, rfl⟩, hsucceed⟩
  refine ⟨st', hrun.trans hst'.1, ?_⟩
  refine (isolationRun_isolates (hwPidBackend_keeping hfit) msr_takes twoSockets
    (hrun.trans hst'.1)).2.2 hrange.1 hrange.2.1 hrange.2.2 fun r hr => ?_
  rw [hst'.2] at hr
  exact ⟨1, by simpa using hr, by decide⟩

end Pqos
