import Pqos.Proofs.AllocApply
import Pqos.Proofs.AllocSelect

/-!
# How definitions are written

A definition may be written in many ways: its type in any case, its ids as numbers and ranges in any
order, its values in decimal or hexadecimal. However it is written, it is read as the settings of
its classes on its ids.
-/

namespace Pqos

open CText Prog Refine

/-! ## Definitions and their texts -/

/-- A class with its value, and the masks that the value is for. -/
structure CosDef where
  scope : UpdateScope
  classId : Nat
  value : Nat

/-- A definition, with the items of its list of ids if it has one. -/
structure ClassDef where
  type : SelAllocType
  resIds : Option (List NumItem)
  coses : List CosDef

def SelAllocType.text : SelAllocType → List Char
  | l3ca => "llc".toList
  | l2ca => "l2".toList
  | mba => "mba".toList

/-- What may stand behind a class. -/
def UpdateScope.letters : UpdateScope → List (List Char)
  | both => [[]]
  | data => [['d'], ['D']]
  | code => [['c'], ['C']]

def CosText (d : CosDef) (s : List Char) : Prop :=
  ∃ t l u, Digits 10 t d.classId ∧ l ∈ d.scope.letters ∧ NumText u d.value
    ∧ s = t ++ (l ++ '=' :: u)

/-- The ids, with the sign before them. -/
def ResIdsText : Option (List NumItem) → List Char → Prop
  | none, s => s = []
  | some items, s => ∃ list, ListText items list ∧ s = '@' :: list

def ClassDefText (defn : ClassDef) (s : List Char) : Prop :=
  ∃ type resIds texts, strcasecmp type defn.type.text = true ∧ ResIdsText defn.resIds resIds
    ∧ List.Forall₂ CosText defn.coses texts ∧ s = type ++ (resIds ++ ':' :: [','].intercalate texts)

/-- The classes have values that are not zero, and the ids, if there are any, are in their bound. L2
has no masks of its own for code and data. -/
structure ClassDef.Valid (defn : ClassDef) : Prop where
  coses : defn.coses ≠ []
  classId : ∀ d ∈ defn.coses, d.classId < 2 ^ 32
  value : ∀ d ∈ defn.coses, d.value ≠ 0
  scope : defn.type = .l2ca → ∀ d ∈ defn.coses, d.scope = .both
  resIds : ∀ items, defn.resIds = some items →
    listed items ≠ [] ∧ ∀ id ∈ listed items, id < maxResSz

def ClassDef.ids (defn : ClassDef) : Option (List Nat) :=
  defn.resIds.map fun items => (listed items).eraseDups

def ClassDef.settings (cpu : CpuInfo) (defn : ClassDef) : List Setting :=
  defn.coses.flatMap fun d =>
    cosSettings cpu defn.type defn.ids d.scope d.classId (BitVec.ofNat 64 d.value)

/-! ## What they are written with -/

theorem exists_of_mem_right {α β : Type} {R : α → β → Prop} {l : List α} {l' : List β}
    (h : List.Forall₂ R l l') {b : β} (hb : b ∈ l') : ∃ a ∈ l, R a b := by
  induction h with
  | nil => cases hb
  | cons hR _ ih =>
    rcases List.mem_cons.1 hb with rfl | hb
    · exact ⟨_, List.mem_cons_self, hR⟩
    · obtain ⟨a, ha, hR⟩ := ih hb
      exact ⟨a, List.mem_cons_of_mem _ ha, hR⟩

section Texts

variable {items : List NumItem} {item : NumItem} {t : List Char} {c : Char} {n : Nat}

/-- No digit is one of the signs between the parts. -/
theorem isDigit_not_sign (h : isDigit 16 c = true) : c ∉ [':', '@', ',', ';', '='] := by
  intro hmem
  have hno : [':', '@', ',', ';', '='].all (fun d => !isDigit 16 d) = true := by decide
  simpa [h] using List.all_eq_true.1 hno c hmem

theorem isspace_not_sign (h : isspace c = true) : c ∉ [':', '@', ',', ';', '='] := by
  intro hmem
  have hno : [':', '@', ',', ';', '='].all (fun d => !isspace d) = true := by decide
  simpa [h] using List.all_eq_true.1 hno c hmem

theorem NumText.not_sign (h : NumText t n) (hc : c ∈ t) : c ∉ [':', '@', ',', ';', '='] := by
  rcases h.mem hc with hdigit | rfl | rfl
  · exact isDigit_not_sign hdigit
  · simp
  · simp

theorem ItemText.not_sign (h : ItemText item t) (hc : c ∈ t) : c ∉ [':', '@', ',', ';', '='] := by
  cases h with
  | empty _ hblanks => exact isspace_not_sign (hblanks c hc)
  | one _ _ hblanks ht =>
    rcases List.mem_append.1 hc with hc | hc
    · exact isspace_not_sign (hblanks c hc)
    · exact ht.not_sign hc
  | range _ _ _ hblanks ht hu =>
    simp only [List.mem_append, List.mem_cons] at hc
    rcases hc with hc | hc | rfl | hc
    · exact isspace_not_sign (hblanks c hc)
    · exact ht.not_sign hc
    · simp
    · exact hu.not_sign hc

/-- A list of ids has commas. -/
theorem ListText.not_sign (h : ListText items t) (hc : c ∈ t) : c ∉ [':', '@', ';', '='] := by
  obtain ⟨-, texts, htexts, rfl⟩ := h
  rcases mem_intercalate hc with rfl | ⟨u, hu, hcu⟩
  · simp
  · obtain ⟨item, -, hitem⟩ := exists_of_mem_right htexts hu
    have hno := hitem.not_sign hcu
    simp only [List.mem_cons, not_or] at hno ⊢
    tauto

theorem mem_letters {scope : UpdateScope} {l : List Char} (hl : l ∈ scope.letters) (hc : c ∈ l) :
    c ∈ ['c', 'C', 'd', 'D'] := by
  cases scope with
  | both =>
    obtain rfl := List.mem_singleton.1 hl
    cases hc
  | data | code => rcases List.mem_pair.1 hl with rfl | rfl <;> simp_all

/-- A class and its value have no sign but the one between them. -/
theorem CosText.not_sign {d : CosDef} (h : CosText d t) (hc : c ∈ t) :
    c ∉ [':', '@', ',', ';'] := by
  obtain ⟨ds, l, u, hds, hl, hu, rfl⟩ := h
  simp only [List.mem_append, List.mem_cons] at hc
  rcases hc with hc | hc | rfl | hc
  · have hno := isDigit_not_sign (isDigit_mono (by decide) (hds.digit c hc))
    simp only [List.mem_cons, not_or] at hno ⊢
    tauto
  · have hletter := mem_letters hl hc
    simp only [List.mem_cons, List.not_mem_nil, or_false] at hletter
    rcases hletter with rfl | rfl | rfl | rfl <;> simp
  · simp
  · have hno := hu.not_sign hc
    simp only [List.mem_cons, not_or] at hno ⊢
    tauto

theorem type_not_sign {type : SelAllocType} (h : strcasecmp t type.text = true) (hc : c ∈ t) :
    c ∉ [':', '@', ',', ';'] := by
  have hlower : c.toLower ∈ type.text.map Char.toLower := by
    rw [← of_decide_eq_true h]
    exact List.mem_map_of_mem hc
  have hno : [':', '@', ',', ';'].all (fun d => !(type.text.map Char.toLower).contains d.toLower)
      = true := by
    cases type <;> rfl
  intro hmem
  have hout := List.all_eq_true.1 hno c hmem
  rw [Bool.not_eq_true', ← Bool.not_eq_true, List.contains_iff_mem] at hout
  exact hout hlower

end Texts

/-! ## What is read -/

section Read

variable {type : SelAllocType} {d : CosDef} {defn : ClassDef} {s t : List Char}

theorem parseCosMaskType_text {l : List Char} (h : Digits 10 t d.classId)
    (hclass : d.classId < 2 ^ 32)
    (hl : l ∈ d.scope.letters) : parseCosMaskType (t ++ l) = .ok (d.scope, d.classId) := by
  obtain ⟨hboth, hcode, hdata⟩ := parseCosMaskType_decimal h hclass
  rcases hscope : d.scope with _ | _ | _ <;> rw [hscope] at hl
  · obtain rfl := List.mem_singleton.1 hl
    rwa [List.append_nil]
  · rcases List.mem_pair.1 hl with rfl | rfl
    · exact hdata _ (by simp)
    · exact hdata _ (by simp)
  · rcases List.mem_pair.1 hl with rfl | rfl
    · exact hcode _ (by simp)
    · exact hcode _ (by simp)

theorem cosSettings_ne_nil (cpu : CpuInfo) {resIds : Option (List Nat)} (h : resIds ≠ some [])
    (scope : UpdateScope) (classId : Nat) (value : Word) :
    cosSettings cpu type resIds scope classId value ≠ [] := by
  have hne : ∀ id : CoreInfo → Nat, resIds.getD (cpu.ids id) ≠ [] := by
    intro id
    rcases resIds with _ | ids
    · obtain ⟨c, hc⟩ := List.exists_mem_of_ne_nil _ cpu.nonempty
      exact List.ne_nil_of_mem (CpuInfo.mem_ids.2 ⟨c, hc, rfl⟩)
    · exact fun hids => h (congrArg some hids)
  unfold cosSettings
  cases type <;> exact mt List.map_eq_nil_iff.1 (hne _)

theorem readToken_text (cpu : CpuInfo) {resIds : Option (List Nat)} (hids : resIds ≠ some [])
    (h : CosText d t) (hclass : d.classId < 2 ^ 32) (hvalue : d.value ≠ 0)
    (hscope : type = .l2ca → d.scope = .both) :
    readToken cpu type resIds t
      = (cosSettings cpu type resIds d.scope d.classId (BitVec.ofNat 64 d.value), true) := by
  obtain ⟨ds, l, u, hds, hl, hu, rfl⟩ := h
  have hsplit : strchr '=' (ds ++ (l ++ '=' :: u)) = some (ds ++ l, u) := by
    have hno : '=' ∉ ds ++ l := by
      rw [List.mem_append, not_or]
      exact ⟨fun hc => isDigit_not_sign (isDigit_mono (by decide) (hds.digit _ hc)) (by simp),
        fun hc => by simpa using mem_letters hl hc⟩
    rw [← List.append_assoc]
    exact strchr_append hno
  have hzero : BitVec.ofNat 64 d.value ≠ 0 := fun hnil => hvalue (by
    have hnat := congrArg BitVec.toNat hnil
    rwa [BitVec.toNat_ofNat, Nat.mod_eq_of_lt hu.2] at hnat)
  have hnone : ¬ (BitVec.ofNat 64 d.value = 0 ∨ (type = .l2ca ∧ d.scope ≠ .both)
      ∨ cosSettings cpu type resIds d.scope d.classId (BitVec.ofNat 64 d.value) = []) := by
    rintro (hnil | ⟨hl2, hne⟩ | hnil)
    · exact hzero hnil
    · exact hne (hscope hl2)
    · exact cosSettings_ne_nil cpu hids _ _ _ hnil
  simp only [readToken, readCos, hsplit, parseCosMaskType_text hds hclass hl, hu.numberOf,
    Except.toOption, Option.bind_eq_bind, Option.bind_some, if_neg hnone]
  rfl

theorem readAll_texts {α : Type} {f : List Char → List Setting × Bool} {g : α → List Setting}
    {R : α → List Char → Prop} {l : List α} {texts : List (List Char)} (h : List.Forall₂ R l texts)
    (hread : ∀ a ∈ l, ∀ t, R a t → f t = (g a, true)) : readAll f texts = (l.flatMap g, true) := by
  induction h with
  | nil => rfl
  | cons hR _ ih =>
    rw [readAll, hread _ List.mem_cons_self _ hR, ih fun a ha =>
      hread a (List.mem_cons_of_mem _ ha)]
    rfl

/-- A list of ids in their bound has room. -/
theorem listToTab_ids {items : List NumItem} (h : ListText items s)
    (hlt : ∀ id ∈ listed items, id < maxResSz) :
    listToTab s maxResSz = .ok (listed items).eraseDups := by
  have hcard : (listed items).toFinset.card ≤ maxResSz := by
    rw [← Finset.card_range maxResSz]
    exact Finset.card_le_card fun id hid => Finset.mem_range.2 (hlt id (List.mem_toFinset.1 hid))
  have hsmall : ∀ id ∈ listed items, id < 2 ^ 32 :=
    fun id hid => Nat.lt_trans (hlt id hid) (by decide)
  rw [← h.named] at hcard hsmall ⊢
  rw [listToTab_run h (by decide), ← stored_all hsmall hcard, stored, h.namedItems]

theorem eraseDups_ne_nil {l : List Nat} (h : l ≠ []) : l.eraseDups ≠ [] := by
  obtain ⟨a, ha⟩ := List.exists_mem_of_ne_nil _ h
  exact List.ne_nil_of_mem (List.mem_eraseDups.2 ha)

theorem readResIds_ids {items : List NumItem} (h : ListText items s) (hne : listed items ≠ [])
    (hlt : ∀ id ∈ listed items, id < maxResSz) :
    readResIds (some s) = some (some (listed items).eraseDups) := by
  have hids : ¬ ((listed items).eraseDups = []
      ∨ ∃ id ∈ (listed items).eraseDups, maxResSz ≤ id) := by
    rintro (hnil | ⟨id, hid, hle⟩)
    · exact eraseDups_ne_nil hne hnil
    · exact Nat.not_lt.2 hle (hlt id (List.mem_eraseDups.1 hid))
  simp only [readResIds, listToTab_ids h hlt, if_neg hids]

theorem selAllocType_text (h : strcasecmp t type.text = true) : selAllocType t = some type := by
  have hlower : t.map Char.toLower = type.text.map Char.toLower := of_decide_eq_true h
  have hcmp : ∀ u : List Char, strcasecmp t u = strcasecmp type.text u := fun u => by
    unfold strcasecmp
    rw [hlower]
  unfold selAllocType
  rw [hcmp, hcmp, hcmp]
  cases type <;> rfl

/-- The colon is behind the ids, if there are any. -/
theorem classText_text {resIds : Option (List NumItem)} {ids cos : List Char}
    (htype : ∀ c ∈ t, c ∉ [':', '@']) (hids : ResIdsText resIds ids) (hcos : '@' ∉ cos) :
    ∃ list, classText (t ++ (ids ++ ':' :: cos)) = some ⟨t, list, cos⟩
      ∧ (resIds = none → list = none)
      ∧ ∀ items, resIds = some items → ∃ l, list = some l ∧ ListText items l := by
  rcases resIds with _ | items
  · obtain rfl : ids = [] := hids
    have hcolon : strchr ':' (t ++ ([] ++ ':' :: cos)) = some (t, cos) :=
      strchr_append fun hc => htype _ hc (by simp)
    have hat : strchr '@' (t ++ ([] ++ ':' :: cos)) = none := strchr_eq_none (by
      simp only [List.nil_append, List.mem_append, List.mem_cons, not_or]
      exact ⟨fun hc => htype _ hc (by simp), by decide, hcos⟩)
    refine ⟨none, ?_, fun _ => rfl, by simp⟩
    simp only [classText, hcolon, hat, Option.bind_eq_bind, Option.bind_some]
  · obtain ⟨list, hlist, rfl⟩ := hids
    have hcolon : strchr ':' (t ++ ('@' :: list ++ ':' :: cos)) = some (t ++ '@' :: list, cos) := by
      rw [← List.append_assoc]
      refine strchr_append ?_
      simp only [List.mem_append, List.mem_cons, not_or]
      exact ⟨fun hc => htype _ hc (by simp), by decide, fun hc => hlist.not_sign hc (by simp)⟩
    have hat : strchr '@' (t ++ ('@' :: list ++ ':' :: cos)) = some (t, list ++ ':' :: cos) :=
      strchr_append fun hc => htype _ hc (by simp)
    have hsep : strsep ':' (list ++ ':' :: cos) = (list, some cos) := by
      rw [strsep, strchr_append fun hc => hlist.not_sign hc (by simp)]
    refine ⟨some list, ?_, by simp, fun items' h => ⟨list, rfl, Option.some.inj h ▸ hlist⟩⟩
    simp only [classText, hcolon, hat, hsep, Option.bind_eq_bind, Option.bind_some]
    exact if_pos (by simp)

theorem readClass_text (cpu : CpuInfo) (hdefn : defn.Valid) (h : ClassDefText defn s) :
    readClass cpu s = (defn.settings cpu, true) := by
  obtain ⟨name, ids, texts, hname, hids, htexts, rfl⟩ := h
  have htokens : ∀ t ∈ texts, t ≠ [] ∧ ',' ∉ t ∧ '@' ∉ t := fun t ht => by
    obtain ⟨d, -, hd⟩ := exists_of_mem_right htexts ht
    refine ⟨?_, fun hc => hd.not_sign hc (by simp), fun hc => hd.not_sign hc (by simp)⟩
    obtain ⟨ds, l, u, -, -, -, rfl⟩ := hd
    simp
  have hcos : '@' ∉ [','].intercalate texts := fun hc => by
    rcases mem_intercalate hc with heq | ⟨t, ht, hct⟩
    · revert heq
      decide
    · exact (htokens t ht).2.2 hct
  have hnosign : ∀ c ∈ name, c ∉ [':', '@'] := fun c hc hmem =>
    type_not_sign hname hc (List.mem_append_left [',', ';'] hmem)
  obtain ⟨list, hclass, hnone, hsome⟩ := classText_text hnosign hids hcos
  have hread : readResIds list = some defn.ids ∧ defn.ids ≠ some [] := by
    unfold ClassDef.ids
    rcases hres : defn.resIds with _ | items
    · rw [hnone hres]
      exact ⟨rfl, nofun⟩
    · obtain ⟨l, rfl, hl⟩ := hsome items hres
      obtain ⟨hne, hlt⟩ := hdefn.resIds items hres
      exact ⟨readResIds_ids hl hne hlt, fun hnil => eraseDups_ne_nil hne (Option.some.inj hnil)⟩
  have hlength := htexts.length_eq
  have htextsne : texts ≠ [] := by
    rintro rfl
    exact hdefn.coses (List.length_eq_zero_iff.1 hlength)
  have hsplit : strtok ',' ([','].intercalate texts) = texts :=
    strtok_intercalate htextsne fun t ht => ⟨(htokens t ht).1, (htokens t ht).2.1⟩
  simp only [readClass, hclass, hread.1, selAllocType_text hname, hsplit, readTokens,
    if_neg htextsne]
  exact readAll_texts htexts fun d hd t ht => readToken_text cpu hread.2 ht (hdefn.classId d hd)
    (hdefn.value d hd) fun hl2 => hdefn.scope hl2 d hd

end Read

/-! ## Runs -/

/-- A definition's text can stand between others. -/
theorem ClassDefText.plain {defn : ClassDef} {s : List Char} (h : ClassDefText defn s) :
    s ≠ [] ∧ ';' ∉ s := by
  obtain ⟨name, ids, texts, hname, hids, htexts, rfl⟩ := h
  refine ⟨by simp, ?_⟩
  simp only [List.mem_append, List.mem_cons, not_or]
  refine ⟨fun hc => type_not_sign hname hc (by simp), ?_, by decide, fun hc => ?_⟩
  · rcases hres : defn.resIds with _ | items <;> rw [hres] at hids
    · obtain rfl : ids = [] := hids
      simp
    · obtain ⟨list, hlist, rfl⟩ := hids
      simp only [List.mem_cons, not_or]
      exact ⟨by decide, fun hc => hlist.not_sign hc (by simp)⟩
  · rcases mem_intercalate hc with heq | ⟨t, ht, hct⟩
    · revert heq
      decide
    · obtain ⟨d, -, hd⟩ := exists_of_mem_right htexts ht
      exact hd.not_sign hct (by simp)

theorem allocDefs_texts {defs : List ClassDef} {texts : List (List Char)} (hne : defs ≠ [])
    (h : List.Forall₂ ClassDefText defs texts) : allocDefs [[';'].intercalate texts] = texts := by
  have hlength := h.length_eq
  have htexts : texts ≠ [] := by
    rintro rfl
    exact hne (List.length_eq_zero_iff.1 hlength)
  have hsplit : strtok ';' ([';'].intercalate texts) = texts :=
    strtok_intercalate htexts fun t ht => by
    obtain ⟨defn, -, hdefn⟩ := exists_of_mem_right h ht
    exact hdefn.plain
  have harg : [';'].intercalate texts ≠ [] := fun hnil => htexts (by rw [← hsplit, hnil]; rfl)
  rw [allocDefs, List.takeWhile_cons_of_pos (by simpa using harg), List.takeWhile_nil,
    List.flatMap_singleton, hsplit]

section Run

variable {σ : Type} {b : PidBackend σ} {view : σ → Store} {rules : StoreRules}
  {Fits : AllocCall → Prop}
  (hkeep : Keeping b view rules Fits) (htakes : Takes view Fits) (p : Platform)
include hkeep htakes

/-- However valid definitions are written, a run with them makes their settings and then those of
the associations, or ends on the way. -/
theorem pqosAlloc_defined {defs : List ClassDef} {texts assocArgs : List (List Char)}
    {sel : SelAssocs}
    (hvalid : ∀ defn ∈ defs, defn.Valid) (htexts : List.Forall₂ ClassDefText defs texts)
    (hne : defs ≠ []) (hsel : associations assocArgs = .ok sel) :
    Shows (runView view)
      (Does nonnegative rules (defs.flatMap (ClassDef.settings p.cpu) ++ assocSettings sel, true))
      (pqosAlloc p b [[';'].intercalate texts] assocArgs) := by
  have hreads := pqosAlloc_reads hkeep htakes p [[';'].intercalate texts] hsel
  rw [allocDefs_texts hne htexts] at hreads
  have hread : readAll (readClass p.cpu) texts = (defs.flatMap (ClassDef.settings p.cpu), true) :=
    readAll_texts htexts fun defn hdefn t ht => readClass_text p.cpu (hvalid defn hdefn) ht
  rwa [runSettings, hread] at hreads

end Run

/-- A class of L3 with its ids listed twice and a value in hexadecimal, and one of L2. -/
def writtenDefs : List ClassDef :=
  [⟨.l3ca, some [.range 0 0, .one 0], [⟨.code, 2, 6⟩, ⟨.data, 2, 6⟩]⟩,
    ⟨.l2ca, none, [⟨.both, 1, 5⟩]⟩]

theorem pqosAlloc_defined_written :
    writtenDefs.flatMap (ClassDef.settings refusingPlatform.cpu)
        = [.l3 0 2 .code 6, .l3 0 2 .data 6, .l2 0 1 5, .l2 1 1 5]
      ∧ Shows (runView (msrView refusingPlatform))
        (Does nonnegative (msrRules refusingPlatform)
          (writtenDefs.flatMap (ClassDef.settings refusingPlatform.cpu) ++ [], true))
        (pqosAlloc refusingPlatform (hwPidBackend refusingPlatform)
          [[';'].intercalate ["llc@0-0,0:2C=0x6,02d=6".toList, "L2:1=5".toList]] []) := by
  have hfit : refusingPlatform.FitsBanks :=
    ⟨cdpPlatform_fitsBanks.l3, cdpPlatform_fitsBanks.l2, cdpPlatform_fitsBanks.mba⟩
  have hvalid : ∀ defn ∈ writtenDefs, defn.Valid := by
    simp only [writtenDefs, List.forall_mem_cons]
    refine ⟨⟨by simp, by simp, by simp, nofun, ?_⟩, ⟨by simp, by simp, by simp, by simp, nofun⟩,
      nofun⟩
    rintro items hitems
    obtain rfl := Option.some.inj hitems
    decide
  have hnum : ∀ {t : List Char} {n : Nat}, t ≠ [] → t.all (isDigit 10) = true → ofDigits 10 t = n →
      Digits 10 t n := fun hne hdigit hvalue => ⟨hne, List.all_eq_true.1 hdigit, hvalue⟩
  have hids : ListText [.range 0 0, .one 0] "0-0,0".toList :=
    ⟨by simp, ["0-0".toList, "0".toList],
      .cons (.range [] ['0'] ['0'] (by simp) (numText_of_decimal (by simp) rfl rfl (by simp))
        (numText_of_decimal (by simp) rfl rfl (by simp)))
      (.cons (.one [] ['0'] (by simp) (numText_of_decimal (by simp) rfl rfl (by simp))) .nil), rfl⟩
  have hcode : CosText ⟨.code, 2, 6⟩ "2C=0x6".toList :=
    ⟨['2'], ['C'], "0x6".toList, hnum (by simp) rfl rfl, by decide,
      ⟨Or.inr ⟨['6'], Or.inl rfl, by simp, List.all_eq_true.1 rfl, rfl⟩, by simp⟩, rfl⟩
  have hdata : CosText ⟨.data, 2, 6⟩ "02d=6".toList :=
    ⟨"02".toList, ['d'], ['6'], hnum (by simp) rfl rfl, by decide,
      numText_of_decimal (by simp) rfl rfl (by simp), rfl⟩
  have hboth : CosText ⟨.both, 1, 5⟩ "1=5".toList :=
    ⟨['1'], [], ['5'], hnum (by simp) rfl rfl, by decide,
      numText_of_decimal (by simp) rfl rfl (by simp), rfl⟩
  exact ⟨by decide +kernel,
    pqosAlloc_defined (hwPidBackend_keeping hfit) msr_takes refusingPlatform hvalid
    (.cons ⟨"llc".toList, "@0-0,0".toList, _, by decide, ⟨_, hids, rfl⟩,
      .cons hcode (.cons hdata .nil), rfl⟩
      (.cons ⟨"L2".toList, [], _, by decide, rfl, .cons hboth .nil, rfl⟩ .nil))
    (by simp [writtenDefs]) (rfl : associations [] = .ok noneAssociated)⟩

end Pqos
