import Mathlib.Data.List.TakeWhile
import Mathlib.Data.List.Perm.Basic
import Mathlib.Order.Lattice
import Mathlib.Tactic.Common

/-!
# Sorting by a comparison

C's `qsort` gets a function that says by the sign of an integer how two elements compare. It
promises a sorted result where the signs are those of an order, and any arrangement of the elements
where they are not. What is wanted is an order by a key, so a comparison is right on a list where
its signs are those of the keys; where it is not right, some sorting function that keeps the promise
leaves the keys out of order.
-/

namespace Qsort

variable {α κ : Type} {cmp : α → α → Int} {l : List α} {a b : α}

/-- The signs on the list's elements are those of an order. -/
structure ConsistentOn (cmp : α → α → Int) (l : List α) : Prop where
  antisymm : ∀ a ∈ l, ∀ b ∈ l, cmp a b < 0 ↔ 0 < cmp b a
  trans : ∀ a ∈ l, ∀ b ∈ l, ∀ c ∈ l, cmp a b ≤ 0 → cmp b c ≤ 0 → cmp a c ≤ 0

/-- No element is above a later one. -/
def Sorted (cmp : α → α → Int) (l : List α) : Prop := l.Pairwise fun a b => cmp a b ≤ 0

/-- A sorting function, which arranges a list in any way where the comparison is not consistent. -/
structure Sorter (cmp : α → α → Int) where
  sort : List α → List α
  perm : ∀ l, (sort l).Perm l
  sorted : ∀ l, ConsistentOn cmp l → Sorted cmp (sort l)

namespace ConsistentOn

theorem mono {m : List α} (h : ConsistentOn cmp l) (hsub : ∀ a ∈ m, a ∈ l) : ConsistentOn cmp m :=
  ⟨fun a ha b hb => h.antisymm a (hsub a ha) b (hsub b hb),
    fun a ha b hb c hc => h.trans a (hsub a ha) b (hsub b hb) c (hsub c hc)⟩

end ConsistentOn

/-! ## A sorting function -/

/-- The list with `b` before the first element that it is not above. -/
def insert (cmp : α → α → Int) (b : α) (l : List α) : List α :=
  l.takeWhile (fun x => 0 < cmp b x) ++ b :: l.dropWhile fun x => 0 < cmp b x

theorem insert_perm (b : α) (l : List α) : (insert cmp b l).Perm (b :: l) := by
  refine List.perm_middle.trans ?_
  rw [List.takeWhile_append_dropWhile]

/-- What `b` is not above comes behind it. -/
theorem insert_before (ha : a ∈ l) (hab : cmp b a ≤ 0) :
    a ∈ l.dropWhile fun x => 0 < cmp b x := by
  have hmem : a ∈ (l.takeWhile fun x => 0 < cmp b x) ++ l.dropWhile fun x => 0 < cmp b x := by
    rwa [List.takeWhile_append_dropWhile]
  refine (List.mem_append.1 hmem).resolve_left fun htake => ?_
  have := List.mem_takeWhile_imp htake
  rw [decide_eq_true_eq] at this
  omega

theorem insert_sorted (hc : ConsistentOn cmp (b :: l)) (hl : Sorted cmp l) :
    Sorted cmp (insert cmp b l) := by
  have hsplit := hl
  rw [← List.takeWhile_append_dropWhile (p := fun x => 0 < cmp b x) (l := l), Sorted,
    List.pairwise_append] at hsplit
  obtain ⟨htake, hdrop, hcross⟩ := hsplit
  have hmemTake : ∀ x ∈ l.takeWhile (fun x => 0 < cmp b x), x ∈ l :=
    fun x hx => (List.takeWhile_sublist _).subset hx
  have hmemDrop : ∀ x ∈ l.dropWhile (fun x => 0 < cmp b x), x ∈ l :=
    fun x hx => (List.dropWhile_sublist _).subset hx
  have hbelow : ∀ x ∈ l.takeWhile (fun x => 0 < cmp b x), cmp x b ≤ 0 := by
    intro x hx
    have hpos := List.mem_takeWhile_imp hx
    rw [decide_eq_true_eq] at hpos
    have := (hc.antisymm x (List.mem_cons_of_mem b (hmemTake x hx)) b List.mem_cons_self).2 hpos
    omega
  have habove : ∀ y ∈ l.dropWhile (fun x => 0 < cmp b x), cmp b y ≤ 0 := by
    intro y hy
    rcases hlist : l.dropWhile (fun x => 0 < cmp b x) with _ | ⟨d, rest⟩
    · rw [hlist] at hy
      cases hy
    · have hhead : cmp b d ≤ 0 := by
        have := List.head_dropWhile_not (p := fun x => decide (0 < cmp b x)) (l := l)
          (by rw [hlist]; exact List.cons_ne_nil d rest)
        simp only [hlist, List.head_cons, decide_eq_false_iff_not] at this
        omega
      rw [hlist] at hy hdrop hmemDrop
      rcases List.mem_cons.1 hy with rfl | hrest
      · exact hhead
      · exact hc.trans b List.mem_cons_self d
          (List.mem_cons_of_mem b (hmemDrop d List.mem_cons_self))
          y (List.mem_cons_of_mem b (hmemDrop y hy)) hhead ((List.pairwise_cons.1 hdrop).1 y hrest)
  refine List.pairwise_append.2 ⟨htake, List.pairwise_cons.2 ⟨habove, hdrop⟩, fun x hx y hy => ?_⟩
  rcases List.mem_cons.1 hy with rfl | hy
  · exact hbelow x hx
  · exact hcross x hx y hy

def insertionSort (cmp : α → α → Int) (l : List α) : List α := l.foldr (insert cmp) []

theorem insertionSort_perm (cmp : α → α → Int) : ∀ l : List α, (insertionSort cmp l).Perm l
  | [] => List.Perm.nil
  | b :: l => (insert_perm b (insertionSort cmp l)).trans ((insertionSort_perm cmp l).cons b)

theorem insertionSort_sorted : ∀ {l : List α}, ConsistentOn cmp l → Sorted cmp (insertionSort cmp l)
  | [], _ => List.Pairwise.nil
  | b :: l, h => by
    refine insert_sorted (h.mono fun a ha => ?_)
      (insertionSort_sorted (h.mono fun a ha => List.mem_cons_of_mem b ha))
    exact List.mem_cons.2 ((List.mem_cons.1 ha).imp_right (insertionSort_perm cmp l).mem_iff.1)

/-- A sorting function that keeps the promise. -/
def insertionSorter (cmp : α → α → Int) : Sorter cmp :=
  ⟨insertionSort cmp, insertionSort_perm cmp, fun _ h => insertionSort_sorted h⟩

/-! ## Orders by a key -/

section Key

variable [LinearOrder κ] {key : α → κ} {k : Nat}

/-- The list is in the order of its keys. -/
def Ascending (key : α → κ) (l : List α) : Prop := l.Pairwise fun a b => key a ≤ key b

/-- The signs on the list's elements are those of their keys. -/
def AgreesOn (cmp : α → α → Int) (key : α → κ) (l : List α) : Prop :=
  ∀ a ∈ l, ∀ b ∈ l, (cmp a b < 0 ↔ key a < key b) ∧ (0 < cmp a b ↔ key b < key a)

namespace AgreesOn

theorem mono {m : List α} (h : AgreesOn cmp key l) (hsub : ∀ a ∈ m, a ∈ l) : AgreesOn cmp key m :=
  fun a ha b hb => h a (hsub a ha) b (hsub b hb)

theorem nonpos_iff (h : AgreesOn cmp key l) (ha : a ∈ l) (hb : b ∈ l) :
    cmp a b ≤ 0 ↔ key a ≤ key b := by
  have hkey : key a ≤ key b ↔ ¬ key b < key a := not_lt.symm
  rw [hkey, ← (h a ha b hb).2]
  omega

theorem consistent (h : AgreesOn cmp key l) : ConsistentOn cmp l := by
  refine ⟨fun a ha b hb => ?_, fun a ha b hb c hc hab hbc => ?_⟩
  · rw [(h a ha b hb).1, (h b hb a ha).2]
  · rw [h.nonpos_iff ha hb] at hab
    rw [h.nonpos_iff hb hc] at hbc
    exact (h.nonpos_iff ha hc).2 (hab.trans hbc)

theorem ascending (h : AgreesOn cmp key l) (q : Sorter cmp) : Ascending key (q.sort l) := by
  refine (q.sorted l h.consistent).imp_of_mem fun ha hb hab => ?_
  exact (h.nonpos_iff ((q.perm l).mem_iff.1 ha) ((q.perm l).mem_iff.1 hb)).1 hab

end AgreesOn

/-- Where two elements are not told apart as their keys are, some arrangement is within the promise
and out of order. -/
theorem exists_unsorted (ha : a ∈ l) (hb : b ∈ l) (hkey : key a < key b)
    (hwrong : ¬ (cmp a b < 0 ∧ 0 < cmp b a)) :
    ∃ l', l'.Perm l ∧ (ConsistentOn cmp l → Sorted cmp l') ∧ ¬ Ascending key l' := by
  obtain ⟨s, t, rfl⟩ := List.append_of_mem hb
  have hrest : a ∈ s ++ t := by
    have hne : a ≠ b := fun h => (h ▸ hkey).false
    have hmem : a ∈ b :: (s ++ t) := List.perm_middle.mem_iff.1 ha
    exact (List.mem_cons.1 hmem).resolve_left hne
  by_cases hc : ConsistentOn cmp (s ++ b :: t)
  · have hback : cmp b a ≤ 0 := by
      have := hc.antisymm a ha b hb
      omega
    have hm := insertionSort_perm cmp (s ++ t)
    refine ⟨insert cmp b (insertionSort cmp (s ++ t)), ?_, fun _ => ?_, fun hasc => ?_⟩
    · exact (insert_perm b _).trans ((hm.cons b).trans List.perm_middle.symm)
    · have hsub : ∀ x ∈ b :: insertionSort cmp (s ++ t), x ∈ s ++ b :: t := fun x hx =>
        ((hm.cons b).trans List.perm_middle.symm).mem_iff.1 hx
      exact insert_sorted (hc.mono hsub)
        (insertionSort_sorted (hc.mono fun x hx => by simp at hx ⊢; tauto))
    · have hbehind := insert_before (hm.mem_iff.2 hrest) hback
      exact absurd ((List.pairwise_cons.1 (List.pairwise_append.1 hasc).2.1).1 a hbehind)
        (not_le.2 hkey)
  · refine ⟨b :: (s ++ t), List.perm_middle.symm, fun h => absurd h hc, fun hasc => ?_⟩
    exact absurd ((List.pairwise_cons.1 hasc).1 a hrest) (not_le.2 hkey)

open Classical in
/-- A sorting function that leaves the keys out of order wherever that is within the promise. -/
noncomputable def adverse (cmp : α → α → Int) (key : α → κ) : Sorter cmp where
  sort l := if h : ∃ l', l'.Perm l ∧ (ConsistentOn cmp l → Sorted cmp l') ∧ ¬ Ascending key l' then
    h.choose else insertionSort cmp l
  perm l := by
    split_ifs with h
    · exact h.choose_spec.1
    · exact insertionSort_perm cmp l
  sorted l hc := by
    split_ifs with h
    · exact h.choose_spec.2.1 hc
    · exact insertionSort_sorted hc

theorem adverse_unsorted (ha : a ∈ l) (hb : b ∈ l) (hkey : key a < key b)
    (hwrong : ¬ (cmp a b < 0 ∧ 0 < cmp b a)) : ¬ Ascending key ((adverse cmp key).sort l) := by
  have h := exists_unsorted ha hb hkey hwrong
  have hsort : (adverse cmp key).sort l = h.choose := dif_pos h
  rw [hsort]
  exact h.choose_spec.2.2

/-! ## The largest elements -/

/-- The `k` elements of `l` that are largest by their keys, in order. -/
structure Largest (key : α → κ) (k : Nat) (l top : List α) : Prop where
  length : top.length = min k l.length
  ascending : Ascending key top
  selected : ∃ rest, l.Perm (top ++ rest) ∧ ∀ r ∈ rest, ∀ t ∈ top, key r ≤ key t

namespace Largest

variable {top top' : List α} {t : α}

theorem nil : Largest key k [] [] :=
  ⟨by simp, List.Pairwise.nil, [], List.Perm.nil, by simp⟩

/-- While there is room nothing is left out. -/
theorem perm (h : Largest key k l top) (hroom : top.length < k) : l.Perm top := by
  obtain ⟨rest, hperm, -⟩ := h.selected
  have hlen := hperm.length_eq
  have := h.length
  rw [List.length_append] at hlen
  obtain rfl : rest = [] := List.eq_nil_of_length_eq_zero (by omega)
  rwa [List.append_nil] at hperm

theorem add (h : Largest key k l top) (hroom : top.length < k) (hperm : top'.Perm (top ++ [a]))
    (hasc : Ascending key top') : Largest key k (l ++ [a]) top' := by
  have hall := h.perm hroom
  refine ⟨?_, hasc, [], ?_, by simp⟩
  · rw [hperm.length_eq, List.length_append, List.length_append, hall.length_eq,
      List.length_singleton]
    omega
  · rw [List.append_nil]
    exact (hall.append_right [a]).trans hperm.symm

/-- An element not above the lowest is left out. -/
theorem skip (h : Largest key k l (t :: top)) (hfull : k ≤ (t :: top).length)
    (hle : key a ≤ key t) : Largest key k (l ++ [a]) (t :: top) := by
  obtain ⟨rest, hperm, hrest⟩ := h.selected
  refine ⟨?_, h.ascending, a :: rest, ?_, fun r hr u hu => ?_⟩
  · have := h.length
    rw [List.length_append, List.length_singleton]
    omega
  · exact (hperm.append_right [a]).trans
      (by rw [List.append_assoc]; exact (List.perm_append_singleton a rest).append_left _)
  · rcases List.mem_cons.1 hr with rfl | hr
    · rcases List.mem_cons.1 hu with rfl | hu
      · exact hle
      · exact hle.trans ((List.pairwise_cons.1 h.ascending).1 u hu)
    · exact hrest r hr u hu

/-- An element above the lowest takes its place. -/
theorem replace (h : Largest key k l (t :: top)) (hfull : k ≤ (t :: top).length)
    (hlt : key t < key a) (hperm : top'.Perm (a :: top)) (hasc : Ascending key top') :
    Largest key k (l ++ [a]) top' := by
  obtain ⟨rest, hall, hrest⟩ := h.selected
  refine ⟨?_, hasc, t :: rest, ?_, fun r hr u hu => ?_⟩
  · have := h.length
    rw [hperm.length_eq, List.length_append, List.length_singleton]
    rw [List.length_cons] at *
    omega
  · have hswap : (t :: top ++ rest ++ [a]).Perm (a :: top ++ t :: rest) := by
      refine (List.perm_append_singleton a _).trans (List.Perm.cons a ?_)
      exact List.perm_middle.symm
    exact (hall.append_right [a]).trans (hswap.trans (hperm.symm.append_right _))
  · have hlow : key t ≤ key u := by
      rcases List.mem_cons.1 (hperm.mem_iff.1 hu) with rfl | hu
      · exact hlt.le
      · exact (List.pairwise_cons.1 h.ascending).1 u hu
    rcases List.mem_cons.1 hr with rfl | hr
    · exact hlow
    · exact (hrest r hr t List.mem_cons_self).trans hlow

end Largest

end Key

end Qsort
