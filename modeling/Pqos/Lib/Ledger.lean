import Mathlib.Data.List.Basic
import Mathlib.Tactic.Common

/-!
# What a log opens and closes

A log that only grows records what is opened and what is closed. Between two of its states some
things were opened and some closed; nothing is owed when these are the same, each as often.
-/

namespace Ledger

/-- What an entry of a log opens, and what it closes. -/
structure Book (κ ρ : Type) where
  opens : κ → Option ρ
  closes : κ → Option ρ

variable {κ ρ : Type} {K : Book κ ρ} {l l₁ l₂ : List κ} {o o' c c' : List ρ}

/-- From one state of a log to another, `o` was opened and `c` closed, in this order. -/
structure Between (K : Book κ ρ) (l l' : List κ) (o c : List ρ) : Prop where
  opened : l'.filterMap K.opens = l.filterMap K.opens ++ o
  closed : l'.filterMap K.closes = l.filterMap K.closes ++ c

theorem Between.refl (K : Book κ ρ) (l : List κ) : Between K l l [] [] :=
  ⟨(List.append_nil _).symm, (List.append_nil _).symm⟩

theorem Between.trans (h : Between K l l₁ o c) (h' : Between K l₁ l₂ o' c') :
    Between K l l₂ (o ++ o') (c ++ c') :=
  ⟨by rw [h'.opened, h.opened, List.append_assoc], by rw [h'.closed, h.closed, List.append_assoc]⟩

theorem between_entry (l : List κ) (a : κ) :
    Between K l (l ++ [a]) (K.opens a).toList (K.closes a).toList := by
  constructor <;> rw [List.filterMap_append] <;> rfl

theorem Between.unique (h : Between K l l₁ o c) (h' : Between K l l₁ o' c') : o = o' ∧ c = c' :=
  ⟨List.append_cancel_left (h.opened.symm.trans h'.opened),
    List.append_cancel_left (h.closed.symm.trans h'.closed)⟩

/-- Whatever was opened was closed, each exactly once. -/
def Balanced (K : Book κ ρ) (l l₁ : List κ) : Prop :=
  ∃ o c, Between K l l₁ o c ∧ c.Perm o

theorem Between.balanced_iff (h : Between K l l₁ o c) : Balanced K l l₁ ↔ c.Perm o := by
  constructor
  · rintro ⟨o', c', h', hperm⟩
    obtain ⟨rfl, rfl⟩ := h.unique h'
    exact hperm
  · exact fun hperm => ⟨o, c, h, hperm⟩

/-- Up to a first state things were only opened, and from there to a second each of them was closed,
exactly once, and nothing else was. -/
def Returned (K : Book κ ρ) (l l₁ l₂ : List κ) : Prop :=
  ∃ o c, Between K l l₁ o [] ∧ Between K l₁ l₂ [] c ∧ c.Perm o

end Ledger
