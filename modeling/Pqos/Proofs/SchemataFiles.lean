import Pqos.OsAllocation
import Pqos.Proofs.Schemata

/-!
# Schemata files in a kernel

Reading a text fills in a structure and keeps its shape. In a kernel whose schemata files hold what
was written to them, an update of a class is an update of the structure its file spells, and the
other classes' files stay as they are.
-/

namespace Pqos

open Prog

/-! ## Reading keeps the shape -/

namespace Schemata

/-- Every rate is a 32-bit number. -/
def RatesFit (s : Schemata) : Prop := ∀ ca ∈ s.mba, ca.mbRate < 2 ^ 32

theorem SameShape.refl (s : Schemata) : s.SameShape s := ⟨rfl, rfl, rfl⟩

theorem SameShape.trans {s t u : Schemata} (h : s.SameShape t) (h' : t.SameShape u) :
    s.SameShape u :=
  ⟨h.l3ca.trans h'.l3ca, h.l2ca.trans h'.l2ca, h.mba.trans h'.mba⟩

/-- From `s` to `t` only masks and rates changed, and rates to 32-bit numbers. -/
structure Filled (s t : Schemata) : Prop where
  shape : t.SameShape s
  rates : s.RatesFit → t.RatesFit

theorem Filled.refl (s : Schemata) : s.Filled s := ⟨SameShape.refl s, id⟩

theorem Filled.trans {s t u : Schemata} (h : s.Filled t) (h' : t.Filled u) : s.Filled u :=
  ⟨h'.shape.trans h.shape, fun hs => h'.rates (h.rates hs)⟩

end Schemata

section Filled

open Schemata

theorem map_set_self {α κ : Type} {key : α → κ} {l : List α} {i : Nat} {a b : α}
    (ha : l[i]? = some a) (hkey : key b = key a) : (l.set i b).map key = l.map key := by
  obtain ⟨hi, rfl⟩ := List.getElem?_eq_some_iff.1 ha
  rw [List.map_set, hkey, ← List.getElem_map key (h := by simpa using hi), List.set_getElem_self]

theorem setEntry_ok {α : Type} {ok : α → Bool} {f : α → α} {i : Nat} {l l' : List α}
    (h : setEntry ok f i l = .ok l') : ∃ a, l[i]? = some a ∧ ok a = true ∧ l' = l.set i (f a) := by
  unfold setEntry at h
  split at h
  · cases h
  · next a ha =>
    split_ifs at h with hok
    cases h
    exact ⟨a, ha, hok, rfl⟩

theorem setEntry_keeps {α κ : Type} {key : α → κ} {ok : α → Bool} {f : α → α} {i : Nat}
    {l l' : List α} (hkey : ∀ a, ok a = true → key (f a) = key a) (h : setEntry ok f i l = .ok l') :
    l'.map key = l.map key := by
  obtain ⟨a, ha, hok, rfl⟩ := setEntry_ok h
  exact map_set_self ha (hkey a hok)

theorem except_map_ok {ε α β : Type} {r : Except ε α} {f : α → β} {b : β} :
    r.map f = .ok b ↔ ∃ a, r = .ok a ∧ f a = b := by
  cases r <;> simp [Except.map]

theorem schemataSet_filled {resId value : Nat} {type : SchemataType} {s t : Schemata}
    (h : schemataSet resId value type s = .ok t) : s.Filled t := by
  cases type <;> simp only [schemataSet, except_map_ok] at h
  case none =>
    cases h
    exact Filled.refl s
  case l2 =>
    obtain ⟨l, hl, rfl⟩ := h
    exact ⟨⟨rfl, setEntry_keeps (f := L2ca.withMask value) (fun _ _ => rfl) hl, rfl⟩, id⟩
  case mb =>
    obtain ⟨l, hl, rfl⟩ := h
    refine ⟨⟨rfl, rfl, setEntry_keeps (f := Mba.withRate value) (fun _ _ => rfl) hl⟩,
      fun hs ca hca => ?_⟩
    obtain ⟨a, -, -, rfl⟩ := setEntry_ok hl
    rcases List.mem_or_eq_of_mem_set hca with hca | rfl
    · exact hs ca hca
    · exact Nat.mod_lt _ (Nat.two_pow_pos 32)
  all_goals
    obtain ⟨l, hl, rfl⟩ := h
    refine ⟨⟨setEntry_keeps (fun a ha => ?_) hl, rfl, rfl⟩, id⟩
    simp_all [L3ca.withWays, L3ca.withCode, L3ca.withData, L3ca.cdp]

theorem schemataReadToken_filled {type : SchemataType} {s t : Schemata} {token : List Char}
    (h : schemataReadToken type s token = .ok t) : s.Filled t := by
  unfold schemataReadToken at h
  split at h
  · cases h
  · obtain ⟨_, -, h⟩ := except_bind_ok.1 h
    obtain ⟨_, -, h⟩ := except_bind_ok.1 h
    exact schemataSet_filled h

theorem schemataReadLine_filled {s t : Schemata} {line : List Char}
    (h : schemataReadLine s line = .ok t) : s.Filled t := by
  unfold schemataReadLine at h
  split at h
  · cases h
  · split_ifs at h
    · cases h
      exact Filled.refl s
    · exact except_foldlM_ok Filled.refl Filled.trans (fun _ _ _ => schemataReadToken_filled) h

theorem schemataRead_filled {text : List Char} {s t : Schemata}
    (h : schemataRead text s = .ok t) : s.Filled t :=
  except_foldlM_ok Filled.refl Filled.trans (fun _ _ _ => schemataReadLine_filled) h

end Filled

/-! ## The structure of a class -/

section Init

variable {p : Platform} {classId : Nat} {init s : Schemata}

theorem schemataEntries_ok {α : Type} {num : Except Err Nat} {ids : List Nat}
    {entry : Except Err α} {l : List α} (h : schemataEntries num classId ids entry = .ok l) :
    l = [] ∨ ∃ a, entry = .ok a ∧ l = List.replicate ids.length a := by
  unfold schemataEntries at h
  split at h
  · exact Or.inl (Except.ok.inj h).symm
  · split_ifs at h
    · obtain ⟨a, ha, rfl⟩ := except_map_ok.1 h
      exact Or.inr ⟨a, ha, rfl⟩
    · exact Or.inl (Except.ok.inj h).symm

theorem schemataInit_ok (h : schemataInit p classId = .ok init) :
    schemataEntries p.mbaGetCosNum classId p.cpu.getSockets (.ok ⟨classId, 100⟩)
      = .ok init.mba := by
  unfold schemataInit at h
  simp only [except_bind_ok] at h
  obtain ⟨_, -, _, -, mba, hmba, h⟩ := h
  cases h
  exact hmba

theorem schemataInit_ratesFit (h : schemataInit p classId = .ok init) : init.RatesFit := by
  intro ca hca
  rcases schemataEntries_ok (schemataInit_ok h) with he | ⟨a, ha, he⟩
  · rw [he] at hca
    cases hca
  · rw [he] at hca
    cases ha
    obtain rfl := List.eq_of_mem_replicate hca
    exact Nat.lt_of_lt_of_le (by decide : 100 < 2 ^ 7)
      (Nat.pow_le_pow_right (by decide) (by decide))

theorem osMbaRate_lt {step rate : Nat} (h : step < 2 ^ 32) : osMbaRate step rate < 2 ^ 32 := by
  have hround : mbaRound step rate < 2 ^ 32 := Nat.mod_lt _ (by decide)
  unfold osMbaRate
  split_ifs
  · exact h
  · exact hround

/-- A class that MBA has gets an entry of its own for every socket. -/
theorem schemataInit_mba {c : CapMba} (hc : p.capGetType CapItem.mba? = .ok c)
    (hclass : classId < c.numClasses) (h : schemataInit p classId = .ok init) :
    init.mba = List.replicate p.cpu.getSockets.length ⟨classId, 100⟩ := by
  have he := schemataInit_ok h
  rw [mbaGetCosNum_ok.2 ⟨c, hc, rfl⟩, schemataEntries, if_pos hclass] at he
  exact (Except.ok.inj he).symm

/-- The L3 entries of a class are all pairs or all plain. -/
theorem schemataInit_cdp (h : schemataInit p classId = .ok init) :
    ∃ b, ∀ ca ∈ init.l3ca, ca.cdp = b := by
  unfold schemataInit at h
  simp only [except_bind_ok] at h
  obtain ⟨_, -, l3ca, hl3ca, _, -, h⟩ := h
  cases h
  rcases schemataEntries_ok hl3ca with rfl | ⟨a, -, rfl⟩
  · exact ⟨false, by simp⟩
  · exact ⟨a.cdp, fun ca hca => by rw [List.eq_of_mem_replicate hca]⟩

end Init

/-! ## The files -/

/-- The schemata files of the first `n` classes: a read returns a class's text and changes none, and
what an accepted write left is read back as what was written, the other classes' texts as before. -/
structure SchemataFiles {κ : Type} (p : Platform) (fs : Resctrl κ) (text : κ → Nat → List Char)
    (n : Nat) : Prop where
  read : ∀ k classId, classId < n →
    ∃ k', (fs.read classId .schemata).run k = .ok (text k classId) k' ∧ text k' = text k
  write : ∀ {k k' classId init s u}, classId < n → schemataInit p classId = .ok init →
    s.SameShape init → s.RatesFit →
    (fs.write classId .schemata (schemataWrite s)).run k = .ok u k' →
    (∀ old, s.SameShape old → schemataRead (text k' classId) old = .ok s)
      ∧ ∀ j, j ≠ classId → text k' j = text k j

/-- The file of a class spells the structure. -/
def Spells (p : Platform) (classId : Nat) (text : List Char) (s : Schemata) : Prop :=
  ∃ init, schemataInit p classId = .ok init ∧ schemataRead text init = .ok s

section Files

variable {κ : Type} {p : Platform} {fs : Resctrl κ} {text : κ → Nat → List Char} {n : Nat}
  (hfs : SchemataFiles p fs text n) {classId : Nat} (hn : classId < n) {k k' : κ} {s t : Schemata}

theorem Spells.unique {txt : List Char} (h : Spells p classId txt s) (h' : Spells p classId txt t) :
    s = t := by
  obtain ⟨init, hi, hs⟩ := h
  obtain ⟨init', hi', ht⟩ := h'
  rw [hi] at hi'
  cases hi'
  exact Except.ok.inj (hs.symm.trans ht)

/-- A class that MBA has has one entry for every socket in its file. -/
theorem Spells.mba {c : CapMba} (hc : p.capGetType CapItem.mba? = .ok c)
    (hclass : classId < c.numClasses) {txt : List Char} (h : Spells p classId txt s) :
    s.mba.map Mba.classId = List.replicate p.cpu.getSockets.length classId := by
  obtain ⟨init, hi, hs⟩ := h
  rw [(schemataRead_filled hs).shape.mba, schemataInit_mba hc hclass hi, List.map_replicate]

include hfs hn

theorem schemataGet_ok (h : (schemataGet p fs classId).run k = .ok s k') :
    Spells p classId (text k classId) s ∧ text k' = text k := by
  unfold schemataGet schemataReadFile readFile at h
  simp only [bind_ok, ofExcept_ok, mapError_ok] at h
  obtain ⟨init, k₀, ⟨hinit, hk₀⟩, txt, k₁, hread, hs, rfl⟩ := h
  obtain ⟨k₂, hrun, htext⟩ := hfs.read k classId hn
  rw [hk₀, hrun] at hread
  cases hread
  exact ⟨⟨init, hinit, hs⟩, htext⟩

theorem schemataGet_run (h : Spells p classId (text k classId) s) :
    ∃ k', (schemataGet p fs classId).run k = .ok s k' ∧ text k' = text k := by
  obtain ⟨init, hinit, hs⟩ := h
  obtain ⟨k', hrun, htext⟩ := hfs.read k classId hn
  refine ⟨k', ?_, htext⟩
  unfold schemataGet schemataReadFile readFile
  rw [bind_of_ok (ofExcept_ok.2 ⟨hinit, rfl⟩), bind_of_ok (mapError_ok.2 hrun)]
  exact ofExcept_ok.2 ⟨hs, rfl⟩

/-- An update that keeps the shape is an update of what the file spells. -/
theorem schemataUpdate_ok {f : Schemata → Except Err Schemata}
    (hf : ∀ s t, Spells p classId (text k classId) s → f s = .ok t → s.Filled t)
    (h : (schemataUpdate p fs classId f).run k = .ok t k') :
    ∃ s, Spells p classId (text k classId) s ∧ f s = .ok t
      ∧ (∀ old, t.SameShape old → schemataRead (text k' classId) old = .ok t)
      ∧ Spells p classId (text k' classId) t ∧ ∀ j, j ≠ classId → text k' j = text k j := by
  unfold schemataUpdate schemataWriteFile writeFile at h
  simp only [bind_ok, ofExcept_ok, mapError_ok] at h
  obtain ⟨s, k₁, hget, u, _, ⟨hu, rfl⟩, _, k₂, hwrite, h⟩ := h
  cases h
  obtain ⟨⟨init, hinit, hs⟩, htext⟩ := schemataGet_ok hfs hn hget
  have hfill : init.Filled t := (schemataRead_filled hs).trans (hf s t ⟨init, hinit, hs⟩ hu)
  obtain ⟨hback, hother⟩ :=
    hfs.write hn hinit hfill.shape (hfill.rates (schemataInit_ratesFit hinit)) hwrite
  rw [htext] at hother
  exact ⟨s, ⟨init, hinit, hs⟩, hu, hback, ⟨init, hinit, hback init hfill.shape⟩, hother⟩

omit hn in
/-- A loop that reads the entries of a resource collects what the files spell. -/
theorem schemataEntry_mapM_ok {α : Type} {entries : Schemata → List α} {resId m : Nat}
    (hm : m ≤ n) {tab : List α}
    (h : ((List.range m).mapM (schemataEntry p fs entries resId)).run k = .ok tab k') :
    tab.length = m ∧ ∀ j < m, ∃ s, Spells p j (text k j) s ∧ (entries s)[resId]? = tab[j]? := by
  have hread : ∀ j ∈ List.range m, ∀ k a k',
      (schemataEntry p fs entries resId j).run k = .ok a k' →
        (∃ s, Spells p j (text k j) s ∧ (entries s)[resId]? = some a) ∧ text k' = text k := by
    intro j hj k a k' hrun
    unfold schemataEntry at hrun
    simp only [bind_ok, ofOption_ok] at hrun
    obtain ⟨s, k₁, hget, he, rfl⟩ := hrun
    obtain ⟨hs, htext⟩ := schemataGet_ok hfs (Nat.lt_of_lt_of_le (List.mem_range.1 hj) hm) hget
    exact ⟨⟨s, hs, he⟩, htext⟩
  obtain ⟨hall, -⟩ := mapM_reads text
    (fun txt j a => ∃ s, Spells p j (txt j) s ∧ (entries s)[resId]? = some a) hread h
  have hlen := hall.length_eq
  rw [List.length_range] at hlen
  refine ⟨hlen.symm, fun j hj => ?_⟩
  obtain ⟨s, hs, he⟩ := hall.get (by simpa using hj) (by omega)
  rw [List.get_eq_getElem, List.getElem_range] at hs
  exact ⟨s, hs, by rw [he, List.getElem?_eq_getElem (by omega)]; rfl⟩

omit hn in
/-- The loop succeeds where every file spells an entry. -/
theorem schemataEntry_mapM_run {α : Type} {entries : Schemata → List α} {resId m : Nat}
    (hm : m ≤ n) (h : ∀ j < m, ∃ s a, Spells p j (text k j) s ∧ (entries s)[resId]? = some a) :
    ∃ tab k', ((List.range m).mapM (schemataEntry p fs entries resId)).run k = .ok tab k' := by
  have hstep : ∀ j ∈ List.range m, ∀ k₁, text k₁ = text k →
      ∃ a k₂, (schemataEntry p fs entries resId j).run k₁ = .ok a k₂ ∧ text k₂ = text k := by
    intro j hj k₁ hk₁
    rw [List.mem_range] at hj
    obtain ⟨s, a, hs, ha⟩ := h j hj
    rw [← hk₁] at hs
    obtain ⟨k₂, hget, htext⟩ := schemataGet_run hfs (Nat.lt_of_lt_of_le hj hm) hs
    refine ⟨a, k₂, ?_, htext.trans hk₁⟩
    unfold schemataEntry
    rw [bind_of_ok hget]
    exact ofOption_ok.2 ⟨ha, rfl⟩
  obtain ⟨tab, k', hrun, -⟩ := mapM_run (fun k' => text k' = text k) hstep rfl
  exact ⟨tab, k', hrun⟩

end Files

/-! ## Plain files -/

/-- A kernel that keeps the schemata files as they are written, as long as a line buffer holds all
of a file, and has no other files and no tasks. -/
def plainFiles : Resctrl (Nat → List Char) where
  read classId file := do
    failIf (file ≠ .schemata) ()
    return (← get) classId
  write classId file text := do
    failIf (file ≠ .schemata) ()
    failIf (lineSize ≤ text.length) ()
    modify fun k => Function.update k classId text
  taskExists _ _ := false

theorem plainFiles_schemataFiles (p : Platform) (n : Nat) :
    SchemataFiles p plainFiles (fun k => k) n := by
  refine ⟨fun k classId _ => ⟨k, rfl, rfl⟩,
    fun {k k' classId init s u} hn hinit hshape hrates h => ?_⟩
  simp only [plainFiles, bind_ok, failIf_ok] at h
  obtain ⟨_, _, ⟨-, rfl⟩, _, _, ⟨hlen, rfl⟩, h⟩ := h
  cases h
  refine ⟨fun old hold => ?_, fun j hj => Function.update_of_ne hj _ _⟩
  have hlines : ∀ line ∈ schemataLines s, line.length < lineSize := by
    intro line hline
    have := (List.sublist_flatten_of_mem hline).length_le
    unfold schemataWrite at hlen
    omega
  simp only [Function.update_self]
  refine schemataRead_write hlines hold hrates ?_
  obtain ⟨b, hb⟩ := schemataInit_cdp hinit
  have hcdp : ∀ ca ∈ s.l3ca, ca.cdp = b := by
    intro ca hca
    obtain ⟨ca', hca', hkey⟩ := mem_of_map_eq hshape.l3ca.symm hca
    rw [← (Prod.mk.inj hkey).2, hb ca' hca']
  rcases b with _ | _
  · exact Or.inr hcdp
  · exact Or.inl hcdp

end Pqos
