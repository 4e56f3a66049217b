import Mathlib.Data.Finset.Card
import Mathlib.Data.List.Count
import Mathlib.Data.List.Pairwise

/-!
# Disjoint sets with labels

A table keeps sets that were named, each named one once, with the labels joined that were given with
it. A set that is apart from those in the table is added to it, and to one that is there the label
is joined. A set that meets another without being it has no place.
-/

namespace Cells

variable {α E : Type} [DecidableEq α]

section Label

variable (join : E → E → E) (bot : E)

/-- The labels given with a set, joined. -/
def labelOf (names : List (Finset α × E)) (s : Finset α) : E :=
  ((names.filter fun c => c.1 = s).map Prod.snd).foldl join bot

/-- The table has the sets named, each once and apart from the others, with the labels given. -/
structure Kept (names tab : List (Finset α × E)) : Prop where
  disjoint : tab.Pairwise fun c d => Disjoint c.1 d.1
  distinct : (tab.map Prod.fst).Nodup
  mem_iff : ∀ s, s ∈ tab.map Prod.fst ↔ s ∈ names.map Prod.fst
  label : ∀ c ∈ tab, c.2 = labelOf join bot names c.1

variable {join bot} {names tab pre post : List (Finset α × E)} {s t : Finset α} {e e' : E}

theorem labelOf_concat_same : labelOf join bot (names ++ [(s, e)]) s
    = join (labelOf join bot names s) e := by
  simp [labelOf]

theorem labelOf_concat_other (h : s ≠ t) :
    labelOf join bot (names ++ [(s, e)]) t = labelOf join bot names t := by
  simp [labelOf, h]

theorem labelOf_of_notMem (h : s ∉ names.map Prod.fst) : labelOf join bot names s = bot := by
  have hnil : names.filter (fun c => c.1 = s) = [] := by
    rw [List.filter_eq_nil_iff]
    intro c hc
    simpa using fun hcs => h (List.mem_map.2 ⟨c, hc, hcs⟩)
  rw [labelOf, hnil]
  rfl

namespace Kept

theorem nil : Kept join bot ([] : List (Finset α × E)) [] :=
  ⟨List.Pairwise.nil, List.nodup_nil, fun _ => Iff.rfl, by simp⟩

/-- A set apart from the others is added. The empty set is apart from itself. -/
theorem add (h : Kept join bot names tab) (hbot : ∀ e, join bot e = e)
    (hdis : ∀ c ∈ tab, Disjoint c.1 s) (hempty : s = ∅ → ∅ ∉ names.map Prod.fst) :
    Kept join bot (names ++ [(s, e)]) (tab ++ [(s, e)]) := by
  have hnew : s ∉ tab.map Prod.fst := by
    intro hs
    obtain ⟨c, hc, rfl⟩ := List.mem_map.1 hs
    have hnone : c.1 = ∅ := disjoint_self.1 (hdis c hc)
    refine hempty hnone ?_
    rw [← hnone]
    exact (h.mem_iff c.1).1 hs
  refine ⟨?_, ?_, fun t => ?_, fun c hc => ?_⟩
  · refine List.pairwise_append.2 ⟨h.disjoint, List.pairwise_singleton _ _, fun c hc d hd => ?_⟩
    rw [List.mem_singleton.1 hd]
    exact hdis c hc
  · rw [List.map_append]
    refine List.nodup_append.2 ⟨h.distinct, by simp, fun c hc d hd => ?_⟩
    rw [List.map_cons, List.map_nil, List.mem_singleton] at hd
    rw [hd]
    rintro rfl
    exact hnew hc
  · rw [List.map_append, List.map_append, List.mem_append, List.mem_append, h.mem_iff]
  · rcases List.mem_append.1 hc with hc | hc
    · have hne : s ≠ c.1 := fun hs => hnew (List.mem_map.2 ⟨c, hc, hs.symm⟩)
      rw [labelOf_concat_other hne]
      exact h.label c hc
    · rw [List.mem_singleton.1 hc, labelOf_concat_same,
        labelOf_of_notMem (mt (h.mem_iff s).2 hnew), hbot]

/-- To a set that is there the label is joined. -/
theorem merge (h : Kept join bot names (pre ++ (s, e') :: post)) :
    Kept join bot (names ++ [(s, e)]) (pre ++ (s, join e' e) :: post) := by
  have hsets : (pre ++ (s, join e' e) :: post).map Prod.fst
      = (pre ++ (s, e') :: post).map Prod.fst := by simp
  have hhere : s ∈ names.map Prod.fst := (h.mem_iff s).1 (by simp)
  refine ⟨?_, hsets ▸ h.distinct, fun t => ?_, fun c hc => ?_⟩
  · rw [← List.pairwise_map (f := Prod.fst) (R := Disjoint), hsets, List.pairwise_map]
    exact h.disjoint
  · rw [hsets, h.mem_iff, List.map_append, List.mem_append, List.map_cons, List.map_nil,
      List.mem_singleton]
    refine ⟨Or.inl, ?_⟩
    rintro (ht | rfl)
    · exact ht
    · exact hhere
  · have hold := h.distinct
    rw [List.map_append, List.map_cons, List.nodup_middle, List.nodup_cons] at hold
    have hother : c ∈ pre ++ post → c.2 = labelOf join bot (names ++ [(s, e)]) c.1 := by
      intro hc
      have hne : s ≠ c.1 := by
        intro hs
        refine hold.1 ?_
        rw [← List.map_append]
        exact List.mem_map.2 ⟨c, hc, hs.symm⟩
      rw [labelOf_concat_other hne]
      refine h.label c ?_
      rcases List.mem_append.1 hc with hc | hc <;> simp [hc]
    rcases List.mem_append.1 hc with hc | hc
    · exact hother (List.mem_append_left _ hc)
    rcases List.mem_cons.1 hc with rfl | hc
    · rw [labelOf_concat_same, ← h.label (s, e') (by simp)]
    · exact hother (List.mem_append_right _ hc)

/-- A named set is in the table once. -/
theorem once (h : Kept join bot names tab) (hs : s ∈ names.map Prod.fst) :
    tab.countP (fun c => c.1 = s) = 1 := by
  have hcount : tab.countP (fun c => c.1 = s) = (tab.map Prod.fst).count s := by
    rw [List.count, List.countP_map]
    refine List.countP_congr fun c _ => ?_
    simp
  rw [hcount]
  exact List.count_eq_one_of_mem h.distinct ((h.mem_iff s).2 hs)

theorem length_eq (h : Kept join bot names tab) :
    tab.length = (names.map Prod.fst).toFinset.card := by
  have hsets : (tab.map Prod.fst).toFinset = (names.map Prod.fst).toFinset := by
    ext s
    rw [List.mem_toFinset, List.mem_toFinset, h.mem_iff]
  rw [← hsets, List.toFinset_card_of_nodup h.distinct, List.length_map]

/-- Named sets are equal or apart. -/
theorem apart (h : Kept join bot names tab) (hs : s ∈ names.map Prod.fst)
    (ht : t ∈ names.map Prod.fst) (hne : s ≠ t) : Disjoint s t := by
  have hpair : (tab.map Prod.fst).Pairwise Disjoint := List.pairwise_map.2 h.disjoint
  exact hpair.forall ((h.mem_iff s).2 hs) ((h.mem_iff t).2 ht) hne

end Kept

end Label

end Cells
