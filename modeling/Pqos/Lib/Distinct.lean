import Mathlib.Data.List.Nodup
import Mathlib.Data.List.Infix
import Mathlib.Data.List.Perm.Subperm
import Mathlib.Data.Finset.Card

/-!
# Distinct values in order of first appearance

`List.eraseDups` keeps the first of equal values. A value that was listed before adds nothing, so
listing more appends to what there is, and the first values of a list are those of any part of it
that has enough. What it makes of a list has each value once, in the order they first appear in.
-/

namespace Distinct

variable {α : Type} [BEq α] [LawfulBEq α] {l l' v : List α} {a : α} {m : Nat}

theorem nodup_eraseDups (l : List α) : l.eraseDups.Nodup := by
  induction hn : l.length using Nat.strong_induction_on generalizing l with
  | _ n ih =>
    rcases l with _ | ⟨a, l⟩
    · simp
    · subst hn
      rw [List.eraseDups_cons, List.nodup_cons]
      have hle := List.length_filter_le (fun b => !b == a) l
      refine ⟨fun h => ?_, ih _ (by rw [List.length_cons]; omega) _ rfl⟩
      rw [List.mem_eraseDups, List.mem_filter] at h
      simp at h

/-- One more value, unless it is there. -/
def push (l : List α) (a : α) : List α := if a ∈ l then l else l ++ [a]

theorem eraseDups_concat (l : List α) (a : α) : (l ++ [a]).eraseDups = push l.eraseDups a := by
  rw [List.eraseDups_append, push]
  by_cases h : a ∈ l
  · rw [if_pos (List.mem_eraseDups.2 h)]
    simp [List.removeAll, h]
  · rw [if_neg (mt List.mem_eraseDups.1 h)]
    simp [List.removeAll, h, List.eraseDups_cons]

theorem eraseDups_grows (l l' : List α) : l.eraseDups <+: (l ++ l').eraseDups := by
  rw [List.eraseDups_append]
  exact List.prefix_append _ _

/-- As many values as the list is known to have. -/
theorem length_le (hv : v.Nodup) (h : ∀ a ∈ v, a ∈ l) : v.length ≤ l.eraseDups.length :=
  (hv.subperm fun a ha => List.mem_eraseDups.2 (h a ha)).length_le

theorem length_push_le (l : List α) (a : α) : (push l a).length ≤ l.length + 1 := by
  unfold push
  split_ifs <;> simp

/-- What follows enough values does not matter. -/
theorem take_eraseDups_append (h : m ≤ l.eraseDups.length) :
    (l ++ l').eraseDups.take m = l.eraseDups.take m := by
  obtain ⟨t, ht⟩ := eraseDups_grows l l'
  rw [← ht, List.take_append_of_le_length h]

theorem length_eraseDups_append_le (l l' : List α) :
    l.eraseDups.length ≤ (l ++ l').eraseDups.length :=
  (eraseDups_grows l l').length_le

theorem eraseDups_of_nodup (h : l.Nodup) : l.eraseDups = l := by
  induction l with
  | nil => rfl
  | cons a l ih =>
    rw [List.nodup_cons] at h
    have hfilter : (l.filter fun b => !b == a) = l := by
      rw [List.filter_eq_self]
      intro b hb
      have hne : b ≠ a := fun hba => h.1 (hba ▸ hb)
      simpa using hne
    rw [List.eraseDups_cons, hfilter, ih h.2]

/-- The values of `l`, each once, in the order in which they appear in it first. -/
structure FirstOf (l v : List α) : Prop where
  nodup : v.Nodup
  mem_iff : ∀ a, a ∈ v ↔ a ∈ l
  order : v.Pairwise fun a b => l.idxOf a < l.idxOf b

theorem firstOf_eraseDups (l : List α) : FirstOf l l.eraseDups := by
  refine ⟨nodup_eraseDups l, fun _ => List.mem_eraseDups, ?_⟩
  induction l using List.reverseRecOn with
  | nil => simp
  | append_singleton l b ih =>
    -- no value before the last comes to stand elsewhere
    have hold : l.eraseDups.Pairwise fun a c => (l ++ [b]).idxOf a < (l ++ [b]).idxOf c := by
      refine ih.imp_of_mem fun ha hc hlt => ?_
      rw [List.mem_eraseDups] at ha hc
      rwa [List.idxOf_append, List.idxOf_append, if_pos ha, if_pos hc]
    rw [eraseDups_concat, push]
    split_ifs with h
    · exact hold
    · rw [List.mem_eraseDups] at h
      refine List.pairwise_append.2 ⟨hold, List.pairwise_singleton _ _, fun a ha c hc => ?_⟩
      rw [List.mem_eraseDups] at ha
      rw [List.mem_singleton.1 hc, List.idxOf_append, List.idxOf_append, if_pos ha, if_neg h]
      have := List.idxOf_lt_length_of_mem ha
      omega

omit [LawfulBEq α] in
theorem FirstOf.length_eq [DecidableEq α] {l v : List α} (h : FirstOf l v) :
    v.length = l.toFinset.card := by
  have hsets : v.toFinset = l.toFinset := by
    ext a
    rw [List.mem_toFinset, List.mem_toFinset, h.mem_iff]
  rw [← hsets, List.toFinset_card_of_nodup h.nodup]

omit [LawfulBEq α] in
theorem FirstOf.length_le {l v : List α} (h : FirstOf l v) : v.length ≤ l.length :=
  (h.nodup.subperm fun a ha => (h.mem_iff a).1 ha).length_le

end Distinct
