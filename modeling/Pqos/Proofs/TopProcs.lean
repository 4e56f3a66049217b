import Mathlib.Data.Prod.Lex
import Pqos.Top

/-!
# The top processes

The array holds the largest of the entries seen, lowest first, as long as the comparison is right
for them. It compares two numbers of ticks by their difference as an `int`, which has the right sign
exactly if the difference, up to a multiple of `2 ^ 32`, is one that an `int` holds.
-/

namespace Pqos

open Qsort

/-! ## Differences as an `int` -/

/-- The difference of two numbers, the first one smaller, is positive as an `int`. -/
def Narrow (m n : Nat) : Prop := 0 < (n - m) % 2 ^ 32 ∧ (n - m) % 2 ^ 32 < 2 ^ 31

instance (m n : Nat) : Decidable (Narrow m n) := inferInstanceAs (Decidable (_ ∧ _))

theorem toInt32_sub (a b : Word) :
    toInt32 (a - b) = if 2 * ((2 ^ 64 - b.toNat + a.toNat) % 2 ^ 32) < 2 ^ 32 then
        (((2 ^ 64 - b.toNat + a.toNat) % 2 ^ 32 : Nat) : Int)
      else (((2 ^ 64 - b.toNat + a.toNat) % 2 ^ 32 : Nat) : Int) - 2 ^ 32 := by
  have hval : ((a - b).setWidth 32).toNat = (2 ^ 64 - b.toNat + a.toNat) % 2 ^ 32 := by
    rw [BitVec.toNat_setWidth, BitVec.toNat_sub]
    exact Nat.mod_mod_of_dvd _ (by decide)
  rw [toInt32, BitVec.toInt_eq_toNat_cond, hval]
  rfl

theorem toInt32_sub_signs {a b : Word} (h : a.toNat < b.toNat) :
    toInt32 (a - b) < 0 ∧ 0 < toInt32 (b - a) ↔ Narrow a.toNat b.toNat := by
  have hb := b.isLt
  have hlow : (2 ^ 64 - b.toNat + a.toNat) % 2 ^ 32
      = (2 ^ 32 - (b.toNat - a.toNat) % 2 ^ 32) % 2 ^ 32 := by omega
  have hhigh : (2 ^ 64 - a.toNat + b.toNat) % 2 ^ 32 = (b.toNat - a.toNat) % 2 ^ 32 := by omega
  rw [toInt32_sub, toInt32_sub, hlow, hhigh, Narrow]
  split_ifs <;> omega

/-- The entries that are selected from. -/
def validProcs {ρ : Type} (pslist : List (ProcStats ρ)) : List (ProcStats ρ) :=
  pslist.filter ProcStats.valid

theorem validProcs_append {ρ : Type} (pslist : List (ProcStats ρ)) (ps : ProcStats ρ) :
    validProcs (pslist ++ [ps]) = if ps.valid = false then validProcs pslist
      else validProcs pslist ++ [ps] := by
  rw [validProcs, List.filter_append]
  cases hps : ps.valid <;> simp [validProcs, hps]

/-! ## The comparison -/

section Procs

variable {ρ : Type} [LinearOrder ρ] {l pslist : List (ProcStats ρ)} {a b : ProcStats ρ}
  {maxSize : Nat}

/-- What processes are ordered by. -/
def usage (ps : ProcStats ρ) : Nat ×ₗ ρ := toLex (ps.ticksDelta.toNat, ps.cpuAvgRatio)

/-- Any two different numbers of ticks are told apart. -/
def TicksNarrow (l : List (ProcStats ρ)) : Prop :=
  ∀ a ∈ l, ∀ b ∈ l, a.ticksDelta.toNat < b.ticksDelta.toNat →
    Narrow a.ticksDelta.toNat b.ticksDelta.toNat

theorem usage_lt : usage a < usage b ↔ a.ticksDelta.toNat < b.ticksDelta.toNat
    ∨ a.ticksDelta = b.ticksDelta ∧ a.cpuAvgRatio < b.cpuAvgRatio := by
  rw [usage, usage, Prod.Lex.toLex_lt_toLex, BitVec.toNat_eq]

theorem procStatsCmp_of_lt (h : a.ticksDelta.toNat < b.ticksDelta.toNat) :
    procStatsCmp a b = toInt32 (a.ticksDelta - b.ticksDelta)
      ∧ procStatsCmp b a = toInt32 (b.ticksDelta - a.ticksDelta) := by
  have hne : a.ticksDelta ≠ b.ticksDelta := fun heq => by
    rw [heq] at h
    exact h.false
  exact ⟨if_neg hne, if_neg hne.symm⟩

theorem procStatsCmp_signs (h : a.ticksDelta.toNat < b.ticksDelta.toNat) :
    procStatsCmp a b < 0 ∧ 0 < procStatsCmp b a
      ↔ Narrow a.ticksDelta.toNat b.ticksDelta.toNat := by
  rw [(procStatsCmp_of_lt h).1, (procStatsCmp_of_lt h).2, toInt32_sub_signs h]

theorem TicksNarrow.agrees (h : TicksNarrow l) : AgreesOn procStatsCmp usage l := by
  intro a ha b hb
  rcases Nat.lt_trichotomy a.ticksDelta.toNat b.ticksDelta.toNat with hlt | heq | hgt
  · have hsigns := ((procStatsCmp_signs hlt).2 (h a ha b hb hlt)).1
    have hkey : usage a < usage b := usage_lt.2 (Or.inl hlt)
    exact ⟨iff_of_true hsigns hkey, iff_of_false (by omega) hkey.le.not_gt⟩
  · have hticks : a.ticksDelta = b.ticksDelta := BitVec.toNat_injective heq
    simp only [usage_lt, hticks, lt_irrefl, false_or, true_and, procStatsCmp, if_true]
    split_ifs with hab hba
    · exact ⟨iff_of_true (by decide) hab, iff_of_false (by decide) hab.le.not_gt⟩
    · exact ⟨iff_of_false (by decide) hab, iff_of_true (by decide) hba⟩
    · exact ⟨iff_of_false (by decide) hab, iff_of_false (by decide) hba⟩
  · have hsigns := ((procStatsCmp_signs hgt).2 (h b hb a ha hgt)).2
    have hkey : usage b < usage a := usage_lt.2 (Or.inl hgt)
    exact ⟨iff_of_false (by omega) hkey.le.not_gt, iff_of_true hsigns hkey⟩

/-! ## The selection -/

variable {q : Sorter (@procStatsCmp ρ _)}

theorem fillTopProcs_append (q : Sorter (@procStatsCmp ρ _)) (pslist : List (ProcStats ρ))
    (ps : ProcStats ρ) (maxSize : Nat) :
    fillTopProcs q (pslist ++ [ps]) maxSize
      = fillTopProc q maxSize (fillTopProcs q pslist maxSize) ps :=
  List.foldl_append

theorem fillTopProc_invalid {ps : ProcStats ρ} (h : ps.valid = false) (top : List (ProcStats ρ)) :
    fillTopProc q maxSize top ps = top := if_pos h

/-- One entry. -/
theorem fillTopProc_largest {done top : List (ProcStats ρ)} {ps : ProcStats ρ} (hmax : 0 < maxSize)
    (hagree : AgreesOn procStatsCmp usage (done ++ [ps])) (hps : ps.valid = true)
    (h : Largest usage maxSize done top) :
    Largest usage maxSize (done ++ [ps]) (fillTopProc q maxSize top ps) := by
  have hmem : ∀ t ∈ top, t ∈ done ++ [ps] := by
    obtain ⟨rest, hperm, -⟩ := h.selected
    exact fun t ht => List.mem_append_left _ (hperm.mem_iff.2 (List.mem_append_left _ ht))
  have hhere : ps ∈ done ++ [ps] := by simp
  unfold fillTopProc
  rw [if_neg (by simp [hps])]
  split_ifs with hroom
  · refine h.add hroom (q.perm _) ((hagree.mono fun t ht => ?_).ascending q)
    rcases List.mem_append.1 ht with ht | ht
    · exact hmem t ht
    · rwa [List.mem_singleton.1 ht]
  · rcases top with _ | ⟨low, rest⟩
    · exact absurd hmax hroom
    · have hlow : low ∈ done ++ [ps] := hmem low List.mem_cons_self
      dsimp only
      split_ifs with hcmp
      · exact h.skip (Nat.not_lt.1 hroom) ((hagree.nonpos_iff hhere hlow).1 hcmp)
      · have hlt : usage low < usage ps := (hagree ps hhere low hlow).2.1 (by omega)
        refine h.replace (Nat.not_lt.1 hroom) hlt (q.perm _)
          ((hagree.mono fun t ht => ?_).ascending q)
        rcases List.mem_cons.1 ht with rfl | ht
        · exact hhere
        · exact hmem t (List.mem_cons_of_mem low ht)

/-- The whole list. -/
theorem fillTopProcs_largest (hmax : 0 < maxSize)
    (hagree : AgreesOn procStatsCmp usage (validProcs pslist)) :
    Largest usage maxSize (validProcs pslist) (fillTopProcs q pslist maxSize) := by
  induction pslist using List.reverseRecOn with
  | nil => exact Largest.nil
  | append_singleton pslist ps ih =>
    rw [fillTopProcs_append]
    rw [validProcs_append] at hagree ⊢
    by_cases hps : ps.valid = false
    · rw [if_pos hps] at hagree ⊢
      rw [fillTopProc_invalid hps]
      exact ih hagree
    · rw [if_neg hps] at hagree ⊢
      exact fillTopProc_largest hmax hagree (by simpa using hps)
        (ih (hagree.mono fun t ht => List.mem_append_left _ ht))

/-- Where there is room for all entries they are sorted together in the end. -/
theorem fillTopProcs_sorts (hroom : (validProcs pslist).length ≤ maxSize) :
    (fillTopProcs q pslist maxSize).Perm (validProcs pslist)
      ∧ (validProcs pslist ≠ [] →
        ∃ l, l.Perm (validProcs pslist) ∧ fillTopProcs q pslist maxSize = q.sort l) := by
  induction pslist using List.reverseRecOn with
  | nil => exact ⟨List.Perm.nil, fun h => absurd rfl h⟩
  | append_singleton pslist ps ih =>
    rw [fillTopProcs_append]
    rw [validProcs_append] at hroom ⊢
    by_cases hps : ps.valid = false
    · rw [if_pos hps] at hroom ⊢
      rw [fillTopProc_invalid hps]
      exact ih hroom
    · rw [if_neg hps] at hroom ⊢
      rw [List.length_append, List.length_singleton] at hroom
      obtain ⟨hperm, -⟩ := ih (by omega)
      have hlast : fillTopProc q maxSize (fillTopProcs q pslist maxSize) ps
          = q.sort (fillTopProcs q pslist maxSize ++ [ps]) := by
        have hlength := hperm.length_eq
        unfold fillTopProc
        rw [if_neg hps, if_pos (by omega)]
      have hall := hperm.append_right [ps]
      rw [hlast]
      exact ⟨(q.perm _).trans hall, fun _ => ⟨_, hall, rfl⟩⟩

/-- For any size of the array the largest entries are selected, whichever way `qsort` sorts. -/
def FillsTop (pslist : List (ProcStats ρ)) : Prop :=
  ∀ (q : Sorter (@procStatsCmp ρ _)) maxSize, 0 < maxSize →
    Largest usage maxSize (validProcs pslist) (fillTopProcs q pslist maxSize)

/-- The largest entries are selected exactly if the comparison tells all numbers of ticks apart. -/
theorem fillTopProcs_iff (pslist : List (ProcStats ρ)) :
    FillsTop pslist ↔ TicksNarrow (validProcs pslist) := by
  constructor
  · intro h a ha b hb hlt
    by_contra hwide
    have hkey : usage a < usage b := usage_lt.2 (Or.inl hlt)
    have hpos : 0 < (validProcs pslist).length := List.length_pos_of_mem ha
    obtain ⟨-, hsorts⟩ := fillTopProcs_sorts (q := adverse procStatsCmp usage)
      (Nat.le_refl (validProcs pslist).length)
    obtain ⟨l, hperm, hsort⟩ := hsorts (List.length_pos_iff.1 hpos)
    have hasc := (h (adverse procStatsCmp usage) _ hpos).ascending
    rw [hsort] at hasc
    exact adverse_unsorted (hperm.mem_iff.2 ha) (hperm.mem_iff.2 hb) hkey
      (mt (procStatsCmp_signs hlt).1 hwide) hasc
  · exact fun h q maxSize hmax => fillTopProcs_largest hmax h.agrees

end Procs

/-- A process that was idle, and one whose ticks are a multiple of what an `int` holds. -/
def busyProc : List (ProcStats Nat) := [⟨10, 0, 0, true⟩, ⟨11, 2 ^ 32, 0, true⟩]

/-- With room for one process the idle one is kept. -/
theorem fillTopProcs_wide : ¬ ∀ pslist : List (ProcStats Nat), FillsTop pslist := by
  intro h
  obtain ⟨-, -, rest, hperm, hrest⟩ := h busyProc (insertionSorter procStatsCmp) 1 (by decide)
  have htop : fillTopProcs (insertionSorter procStatsCmp) busyProc 1 = [⟨10, 0, 0, true⟩] := by
    decide
  have hbusy : (⟨11, 2 ^ 32, 0, true⟩ : ProcStats Nat) ∈ validProcs busyProc := by decide
  rw [htop] at hperm hrest
  have hleft := (List.mem_cons.1 (hperm.mem_iff.1 hbusy)).resolve_left (by decide)
  have hle := hrest _ hleft _ List.mem_cons_self
  exact absurd hle (not_le.2 (usage_lt.2 (Or.inl (by decide))))

end Pqos
