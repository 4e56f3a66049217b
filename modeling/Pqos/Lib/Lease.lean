import Mathlib.Data.Set.Basic
import Mathlib.Logic.Relation

/-!
# Leases of tags

Members live in domains and each carries a tag. A group takes members that carry the idle tag and
gives those of each domain one tag that nobody in the domain carries; releasing it makes them idle
again. Nothing but the tags and the groups says which tags are free, and that is enough: whatever
the order of grants and releases, two groups never share a member, nor a tag within a domain.
-/

namespace Lease

variable {K D T G : Type}

/-- What a group holds: its members, and the tag it was given in each domain. -/
structure Grant (K D T : Type) where
  members : Set K
  tag : D → T

structure State (K D T G : Type) where
  tag : K → T
  held : G → Option (Grant K D T)

variable [DecidableEq G] (dom : K → D) (idle : T)

structure Grants (g : G) (a : Grant K D T) (s s' : State K D T G) : Prop where
  vacant : s.held g = none
  wasIdle : ∀ k ∈ a.members, s.tag k = idle
  fresh : ∀ k ∈ a.members, ∀ k', dom k' = dom k → s.tag k' ≠ a.tag (dom k)
  tagged : ∀ k ∈ a.members, s'.tag k = a.tag (dom k)
  frame : ∀ k ∉ a.members, s'.tag k = s.tag k
  held : s'.held = Function.update s.held g (some a)

structure Releases (g : G) (a : Grant K D T) (s s' : State K D T G) : Prop where
  holds : s.held g = some a
  cleared : ∀ k ∈ a.members, s'.tag k = idle
  frame : ∀ k ∉ a.members, s'.tag k = s.tag k
  held : s'.held = Function.update s.held g none

inductive Step (s s' : State K D T G) : Prop
  | stutter (h : s' = s)
  | grant (g : G) (a : Grant K D T) (h : Grants dom idle g a s s')
  | release (g : G) (a : Grant K D T) (h : Releases idle g a s s')

/-- Every member of a group carries the group's tag in its domain, which is not the idle one and
which nobody else in the domain carries; a member of no group is idle. -/
structure Owned (s : State K D T G) : Prop where
  disjoint : ∀ {g g' a a' k}, s.held g = some a → s.held g' = some a' → k ∈ a.members →
    k ∈ a'.members → g = g'
  carries : ∀ {g a k}, s.held g = some a → k ∈ a.members → s.tag k = a.tag (dom k) ∧ s.tag k ≠ idle
  exclusive : ∀ {g a k k'}, s.held g = some a → k ∈ a.members → dom k' = dom k → k' ∉ a.members →
    s.tag k' ≠ s.tag k
  spare : ∀ {k}, (∀ g a, s.held g = some a → k ∉ a.members) → s.tag k = idle

variable {dom idle} {s s' : State K D T G} {g : G} {a : Grant K D T}

omit [DecidableEq G] in
theorem Owned.initial (htag : ∀ k, s.tag k = idle) (hheld : ∀ g, s.held g = none) :
    Owned dom idle s where
  disjoint h := by simp [hheld] at h
  carries h := by simp [hheld] at h
  exclusive h := by simp [hheld] at h
  spare _ := htag _

section Grants

variable (hs : Owned dom idle s) (h : Grants dom idle g a s s')
include h

/-- A group held after a grant is the new one, or one held before and untouched by it. -/
theorem Grants.held_cases {g' : G} {a' : Grant K D T} (h' : s'.held g' = some a') :
    g' = g ∧ a' = a ∨ g' ≠ g ∧ s.held g' = some a' := by
  rw [h.held] at h'
  by_cases hg : g' = g
  · subst hg
    rw [Function.update_self] at h'
    exact Or.inl ⟨rfl, (Option.some.inj h').symm⟩
  · rw [Function.update_of_ne hg] at h'
    exact Or.inr ⟨hg, h'⟩

include hs in
theorem Grants.apart {g' : G} {a' : Grant K D T} (h' : s.held g' = some a') {k : K}
    (hk : k ∈ a'.members) : k ∉ a.members := fun hka =>
  (hs.carries h' hk).2 (h.wasIdle k hka)

include hs in
theorem Grants.owned : Owned dom idle s' := by
  refine ⟨fun h₁ h₂ hk hk' => ?_, fun h₁ hk => ?_, fun {g₁ a₁ k k'} h₁ hk hdom hk' => ?_,
    fun {k} hk => ?_⟩
  · rcases h.held_cases h₁ with ⟨rfl, rfl⟩ | ⟨-, h₁⟩ <;>
      rcases h.held_cases h₂ with ⟨rfl, rfl⟩ | ⟨-, h₂⟩
    · rfl
    · exact absurd hk (h.apart hs h₂ hk')
    · exact absurd hk' (h.apart hs h₁ hk)
    · exact hs.disjoint h₁ h₂ hk hk'
  · rcases h.held_cases h₁ with ⟨rfl, rfl⟩ | ⟨-, h₁⟩
    · have hfresh := h.fresh _ hk _ rfl
      rw [h.wasIdle _ hk] at hfresh
      exact ⟨h.tagged _ hk, by rw [h.tagged _ hk]; exact hfresh.symm⟩
    · rw [h.frame _ (h.apart hs h₁ hk)]
      exact hs.carries h₁ hk
  · rcases h.held_cases h₁ with ⟨rfl, rfl⟩ | ⟨-, h₁⟩
    · rw [h.tagged k hk, h.frame k' hk']
      exact h.fresh k hk k' hdom
    · have hka := h.apart hs h₁ hk
      rw [h.frame k hka]
      by_cases hmem : k' ∈ a.members
      · rw [h.tagged k' hmem]
        exact (h.fresh k' hmem k hdom.symm).symm
      · rw [h.frame k' hmem]
        exact hs.exclusive h₁ hk hdom hk'
  · have hka : k ∉ a.members := hk g a (by rw [h.held, Function.update_self])
    rw [h.frame k hka]
    refine hs.spare fun g' a' h' => hk g' a' ?_
    have hg : g' ≠ g := by
      rintro rfl
      rw [h.vacant] at h'
      cases h'
    rw [h.held, Function.update_of_ne hg, h']

end Grants

section Releases

variable (hs : Owned dom idle s) (h : Releases idle g a s s')
include h

theorem Releases.held_cases {g' : G} {a' : Grant K D T} (h' : s'.held g' = some a') :
    g' ≠ g ∧ s.held g' = some a' := by
  rw [h.held] at h'
  by_cases hg : g' = g
  · subst hg
    rw [Function.update_self] at h'
    cases h'
  · rw [Function.update_of_ne hg] at h'
    exact ⟨hg, h'⟩

include hs in
theorem Releases.apart {g' : G} {a' : Grant K D T} (h' : s'.held g' = some a') {k : K}
    (hk : k ∈ a'.members) : k ∉ a.members := fun hka =>
  (h.held_cases h').1 (hs.disjoint (h.held_cases h').2 h.holds hk hka)

include hs in
theorem Releases.owned : Owned dom idle s' := by
  refine ⟨fun h₁ h₂ hk hk' => ?_, fun h₁ hk => ?_, fun {g₁ a₁ k k'} h₁ hk hdom hk' => ?_,
    fun {k} hk => ?_⟩
  · exact hs.disjoint (h.held_cases h₁).2 (h.held_cases h₂).2 hk hk'
  · rw [h.frame _ (h.apart hs h₁ hk)]
    exact hs.carries (h.held_cases h₁).2 hk
  · have hold := hs.carries (h.held_cases h₁).2 hk
    rw [h.frame k (h.apart hs h₁ hk)]
    by_cases hmem : k' ∈ a.members
    · rw [h.cleared k' hmem]
      exact hold.2.symm
    · rw [h.frame k' hmem]
      exact hs.exclusive (h.held_cases h₁).2 hk hdom hk'
  · by_cases hmem : k ∈ a.members
    · exact h.cleared k hmem
    · rw [h.frame k hmem]
      refine hs.spare fun g' a' h' hk' => ?_
      by_cases hg : g' = g
      · subst hg
        rw [h.holds] at h'
        cases h'
        exact hmem hk'
      · exact hk g' a' (by rw [h.held, Function.update_of_ne hg, h']) hk'

end Releases

theorem Step.owned (hs : Owned dom idle s) : Step dom idle s s' → Owned dom idle s'
  | .stutter h => h ▸ hs
  | .grant _ _ h => h.owned hs
  | .release _ _ h => h.owned hs

/-- Whatever runs of steps a system makes, the groups own what they hold. -/
theorem owned_of_steps (hs : Owned dom idle s) (h : Relation.ReflTransGen (Step dom idle) s s') :
    Owned dom idle s' := by
  induction h with
  | refl => exact hs
  | tail _ hstep ih => exact hstep.owned ih

end Lease
