import Mathlib.Order.OrderDual
import Pqos.Proofs.TopProcs

/-!
# The rows shown

The groups are sorted by their occupancy, the largest first, exactly as far as the comparison tells
the occupancies apart. The number of rows is computed in 32 bits from the lines of the terminal;
where these are not known it wraps, and the rows pass the end of the array.
-/

namespace Pqos

open Prog Qsort

/-! ## The order -/

section Order

variable {l : List MonGroup} {a b : MonGroup}

/-- What the groups are ordered by, the largest first. -/
def occupancy (g : MonGroup) : Natᵒᵈ := OrderDual.toDual g.values.llc.toNat

/-- Any two different occupancies are told apart. -/
def LlcNarrow (l : List MonGroup) : Prop :=
  ∀ a ∈ l, ∀ b ∈ l, a.values.llc.toNat < b.values.llc.toNat →
    Narrow a.values.llc.toNat b.values.llc.toNat

/-- The comparison is that of an order in which larger occupancies come first, and the rows are in
this order whichever way `qsort` sorts. -/
structure DescendingRows (l : List MonGroup) : Prop where
  consistent : ConsistentOn monQsortLlcCmpDesc l
  agrees : AgreesOn monQsortLlcCmpDesc occupancy l
  rows : ∀ qLlc qCore processMode,
    (monData qLlc qCore true processMode l).Pairwise fun a b =>
      b.values.llc.toNat ≤ a.values.llc.toNat

theorem occupancy_lt : occupancy a < occupancy b ↔ b.values.llc.toNat < a.values.llc.toNat :=
  Iff.rfl

theorem monQsortLlcCmpDesc_signs (h : a.values.llc.toNat < b.values.llc.toNat) :
    monQsortLlcCmpDesc b a < 0 ∧ 0 < monQsortLlcCmpDesc a b
      ↔ Narrow a.values.llc.toNat b.values.llc.toNat := toInt32_sub_signs h

theorem llcNarrow_iff : LlcNarrow l ↔ AgreesOn monQsortLlcCmpDesc occupancy l := by
  constructor
  · intro h a ha b hb
    simp only [occupancy_lt]
    rcases Nat.lt_trichotomy a.values.llc.toNat b.values.llc.toNat with hlt | heq | hgt
    · have hsigns := ((monQsortLlcCmpDesc_signs hlt).2 (h a ha b hb hlt)).2
      exact ⟨iff_of_false (by omega) (by omega), iff_of_true hsigns hlt⟩
    · have hzero : monQsortLlcCmpDesc a b = 0 := by
        rw [monQsortLlcCmpDesc, BitVec.toNat_injective heq, BitVec.sub_self]
        rfl
      exact ⟨iff_of_false (by omega) (by omega), iff_of_false (by omega) (by omega)⟩
    · have hsigns := ((monQsortLlcCmpDesc_signs hgt).2 (h b hb a ha hgt)).1
      exact ⟨iff_of_true hsigns hgt, iff_of_false (by omega) (by omega)⟩
  · intro h a ha b hb hlt
    exact (monQsortLlcCmpDesc_signs hlt).1 ⟨(h b hb a ha).1.2 hlt, (h a ha b hb).2.2 hlt⟩

/-- The rows are in order exactly if the comparison tells all occupancies apart. -/
theorem descendingRows_iff (l : List MonGroup) : DescendingRows l ↔ LlcNarrow l := by
  refine ⟨fun h => llcNarrow_iff.2 h.agrees, fun h => ?_⟩
  have hagrees := llcNarrow_iff.1 h
  exact ⟨hagrees.consistent, hagrees, fun qLlc qCore processMode => hagrees.ascending qLlc⟩

/-- A group with some occupancy, and no other readings. -/
def occupied (llc : Word) : MonGroup :=
  ⟨[0], ⟨llc, 0, 0, 0, 0, 0, 0, 0, 0, 0, 0, 0, 0, none, 0, 0, 0⟩⟩

/-- A group with 2 GiB of cache is shown behind one with none. -/
theorem descendingRows_wide : ¬ ∀ l, DescendingRows l := by
  intro h
  have hrows := (h [occupied 0, occupied (2 ^ 31 + 1)]).rows (insertionSorter _) (insertionSorter _)
    false
  have hshown : monData (insertionSorter _) (insertionSorter _) true false
      [occupied 0, occupied (2 ^ 31 + 1)] = [occupied 0, occupied (2 ^ 31 + 1)] := by decide
  rw [hshown] at hrows
  revert hrows
  decide

end Order

/-! ## The number of rows -/

/-- The groups that are monitored, with a number of 32 bits. -/
structure MonGroups where
  groups : List MonGroup
  number : groups.length < 2 ^ 32

/-- On a terminal no more rows are shown than there are groups, and none is read behind the last. -/
structure RowsWithin (g : MonGroups) (wsRow : Option (BitVec 16)) : Prop where
  count : (displayNum true wsRow (BitVec.ofNat 32 g.groups.length)).toNat ≤ g.groups.length
  shown : ∀ qLlc qCore selMonTopLike processMode,
    (rows (displayNum true wsRow (BitVec.ofNat 32 g.groups.length)).toNat
      (monData qLlc qCore selMonTopLike processMode g.groups)).isSome

section Count

variable {n : Nat} {monGrps : List MonGroup}

theorem length_monData (qLlc : Sorter monQsortLlcCmpDesc) (qCore : Sorter monQsortCoreidCmpAsc)
    (selMonTopLike processMode : Bool) (monGrps : List MonGroup) :
    (monData qLlc qCore selMonTopLike processMode monGrps).length = monGrps.length := by
  unfold monData
  split_ifs
  · exact (qLlc.perm monGrps).length_eq
  · rfl
  · exact (qCore.perm monGrps).length_eq

theorem rows_isSome (h : n ≤ monGrps.length) : (rows n monGrps).isSome := by
  refine option_mapM_isSome fun i hi => ?_
  rw [List.getElem?_eq_getElem (Nat.lt_of_lt_of_le (List.mem_range.1 hi) h)]
  rfl

theorem le_maxLines (row : BitVec 16) : 3 ≤ (maxLines (some row)).toNat := by
  rw [maxLines, termMinNumLines]
  split_ifs with hfew
  · decide
  · rw [BitVec.not_lt, BitVec.le_def] at hfew
    exact hfew

theorem toNat_displayNum (wsRow : Option (BitVec 16)) (number : BitVec 32) :
    (displayNum true wsRow number).toNat
      = if (maxLines wsRow).toNat < (number.toNat + 2) % 2 ^ 32 then
          (2 ^ 32 - 2 + (maxLines wsRow).toNat) % 2 ^ 32
        else number.toNat := by
  have hmore : (number + termMinNumLines - 1).toNat = (number.toNat + 2) % 2 ^ 32 := by
    rw [termMinNumLines]
    bv_omega
  have hfewer : (maxLines wsRow - termMinNumLines + 1).toNat
      = (2 ^ 32 - 2 + (maxLines wsRow).toNat) % 2 ^ 32 := by
    rw [termMinNumLines]
    bv_omega
  unfold displayNum
  simp only [true_and, BitVec.lt_def, hmore]
  split_ifs
  · exact hfewer
  · rfl

/-- Known lines are at least what a row takes; unknown ones make the number wrap. -/
theorem displayNum_le_iff (wsRow : Option (BitVec 16)) (number : BitVec 32) :
    (displayNum true wsRow number).toNat ≤ number.toNat
      ↔ wsRow.isSome ∨ 2 ^ 32 - 2 ≤ number.toNat := by
  have hnumber := number.isLt
  rw [toNat_displayNum]
  rcases wsRow with _ | row
  · have hzero : (maxLines none).toNat = 0 := rfl
    rw [hzero]
    simp only [Option.isSome_none, Bool.false_eq_true, false_or]
    split_ifs <;> omega
  · have hle := le_maxLines row
    have hlt := (maxLines (some row)).isLt
    simp only [Option.isSome_some, true_or, iff_true]
    split_ifs <;> omega

end Count

/-- Rows are shown within the groups exactly if the terminal's lines are known, or there are nearly
as many groups as their number can say. -/
theorem rowsWithin_iff (g : MonGroups) (wsRow : Option (BitVec 16)) :
    RowsWithin g wsRow ↔ wsRow.isSome ∨ 2 ^ 32 - 2 ≤ g.groups.length := by
  have hnumber : (BitVec.ofNat 32 g.groups.length).toNat = g.groups.length := by
    rw [BitVec.toNat_ofNat, Nat.mod_eq_of_lt g.number]
  have hcount := displayNum_le_iff wsRow (BitVec.ofNat 32 g.groups.length)
  rw [hnumber] at hcount
  refine ⟨fun h => hcount.1 h.count,
    fun h => ⟨hcount.2 h, fun qLlc qCore topLike processMode => ?_⟩⟩
  refine rows_isSome ?_
  rw [length_monData]
  exact hcount.2 h

/-- The lines of the terminal cannot be read. -/
theorem rowsWithin_noLines : ¬ ∀ g wsRow, RowsWithin g wsRow := by
  intro h
  have hcount := (h ⟨[occupied 0], by decide⟩ none).count
  revert hcount
  decide

end Pqos
