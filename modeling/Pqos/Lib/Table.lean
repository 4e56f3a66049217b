import Mathlib.Data.Finset.Card
import Mathlib.Data.List.Basic
import Mathlib.Logic.Function.Basic

/-!
# Tables of keyed entries

A table may name a key more than once. Written in order into a store, the entry that counts is the
last one that names the key.
-/

namespace Table

variable {α κ β : Type} [DecidableEq κ]

/-- The last entry of the table that names `k`. -/
def lastNamed (key : α → κ) (k : κ) (l : List α) : Option α :=
  (l.filter fun a => key a = k).getLast?

section

variable (key : α → κ) (k : κ)

@[simp] theorem lastNamed_nil : lastNamed key k [] = none := rfl

theorem lastNamed_concat (l : List α) (a : α) :
    lastNamed key k (l ++ [a]) = if key a = k then some a else lastNamed key k l := by
  unfold lastNamed
  rw [List.filter_append]
  split_ifs with h <;> simp [h]

/-- Entries that are determined by their key count by the keys that they name. -/
theorem lastNamed_append (f : κ → α) (l : List α) {l' : List α} (h : ∀ a ∈ l', f (key a) = a) :
    lastNamed key k (l ++ l') = if k ∈ l'.map key then some (f k) else lastNamed key k l := by
  induction l' using List.reverseRecOn with
  | nil => simp
  | append_singleton l' a ih =>
    rw [← List.append_assoc, lastNamed_concat, ih fun b hb => h b (List.mem_append_left _ hb)]
    by_cases hak : key a = k
    · subst hak
      simp [h a (by simp)]
    · have hka : k ≠ key a := Ne.symm hak
      simp [hak, hka]

theorem lastNamed_mem {l : List α} {a : α} (h : lastNamed key k l = some a) :
    a ∈ l ∧ key a = k := by
  have := List.mem_of_getLast? h
  simpa using this

/-- Where an entry contributes `f a` when it names `k` and nothing otherwise, the last contribution
is that of the last entry named. -/
theorem getLast?_filterMap {β : Type} {w : α → Option β} (f : α → β) {l : List α}
    (h : ∀ a ∈ l, w a = if key a = k then some (f a) else none) :
    (l.filterMap w).getLast? = (lastNamed key k l).map f := by
  have hmap : l.filterMap w = (l.filter fun a => key a = k).map f := by
    induction l with
    | nil => rfl
    | cons a l ih =>
      have ih := ih fun b hb => h b (List.mem_cons_of_mem a hb)
      rw [List.filterMap_cons, h a List.mem_cons_self, List.filter_cons, ih]
      by_cases hk : key a = k <;> simp [hk]
  rw [hmap, List.getLast?_map, lastNamed]

end

/-- The table `old` with each entry replaced by the last entry of `l` that names its key, as
`back` makes it read, where there is one. -/
def updated (key : α → κ) (back : α → α) (l old : List α) : List α :=
  old.map fun a => ((lastNamed key (key a) l).map back).getD a

/-! ## Tables of last entries -/

/-- The table has one entry for each key that was named, the last that named it, and no others. -/
structure LastOf (key : α → κ) (names tab : List α) : Prop where
  nodup : (tab.map key).Nodup
  mem_iff : ∀ a, a ∈ tab ↔ lastNamed key (key a) names = some a

namespace LastOf

variable {key : α → κ} {names tab pre post : List α} {a b : α} {k : κ}

theorem nil : LastOf key [] [] := ⟨List.nodup_nil, by simp⟩

/-- The keys of the table are those named. -/
theorem mem_keys (h : LastOf key names tab) : k ∈ tab.map key ↔ k ∈ names.map key := by
  constructor
  · intro hk
    obtain ⟨a, ha, rfl⟩ := List.mem_map.1 hk
    exact List.mem_map_of_mem (lastNamed_mem key _ ((h.mem_iff a).1 ha)).1
  · intro hk
    obtain ⟨b, hb, rfl⟩ := List.mem_map.1 hk
    rcases hlast : lastNamed key (key b) names with _ | a
    · have hnone := List.getLast?_eq_none_iff.1 hlast
      rw [List.filter_eq_nil_iff] at hnone
      simpa using hnone b hb
    · have hkey := (lastNamed_mem key _ hlast).2
      rw [← hkey] at hlast ⊢
      exact List.mem_map_of_mem ((h.mem_iff a).2 hlast)

/-- A key that the table does not have is added. -/
theorem push (h : LastOf key names tab) (hnew : key a ∉ tab.map key) :
    LastOf key (names ++ [a]) (tab ++ [a]) := by
  refine ⟨?_, fun b => ?_⟩
  · rw [List.map_append]
    refine List.nodup_append.2 ⟨h.nodup, by simp, fun k hk l hl => ?_⟩
    rw [List.map_cons, List.map_nil, List.mem_singleton] at hl
    rintro rfl
    exact hnew (hl ▸ hk)
  · rw [lastNamed_concat, List.mem_append, List.mem_singleton, h.mem_iff]
    split_ifs with hab
    · have hnone : lastNamed key (key b) names ≠ some b := by
        rw [Ne, ← h.mem_iff]
        intro hb
        exact hnew (hab ▸ List.mem_map_of_mem hb)
      rw [or_iff_right hnone, Option.some.injEq, eq_comm]
    · refine or_iff_left ?_
      rintro rfl
      exact hab rfl

/-- The entry of a key that the table has is replaced. -/
theorem replace (h : LastOf key names (pre ++ b :: post)) (hkey : key b = key a) :
    LastOf key (names ++ [a]) (pre ++ a :: post) := by
  have hkeys : (pre ++ a :: post).map key = (pre ++ b :: post).map key := by simp [hkey]
  have hdistinct := h.nodup
  rw [List.map_append, List.map_cons, List.nodup_middle, List.nodup_cons, ← List.map_append,
    hkey] at hdistinct
  refine ⟨hkeys ▸ h.nodup, fun c => ?_⟩
  rw [lastNamed_concat]
  split_ifs with hac
  · have hother : c ∉ pre ++ post := fun hc => hdistinct.1 (hac ▸ List.mem_map_of_mem hc)
    rw [List.mem_append, not_or] at hother
    simp only [List.mem_append, List.mem_cons, hother.1, hother.2, or_false, false_or,
      Option.some.injEq, eq_comm]
  · rw [← h.mem_iff]
    have hca : c ≠ a := fun hc => hac (hc ▸ rfl)
    have hcb : c ≠ b := fun hc => hac (hc ▸ hkey.symm)
    simp only [List.mem_append, List.mem_cons, hca, hcb, false_or]

/-- The table depends on the names by what was named last. -/
theorem congr {names' : List α} (h : LastOf key names tab)
    (hnames : ∀ k, lastNamed key k names' = lastNamed key k names) : LastOf key names' tab :=
  ⟨h.nodup, fun a => by rw [hnames, h.mem_iff]⟩

theorem length_eq (h : LastOf key names tab) :
    tab.length = (names.map key).toFinset.card := by
  have hkeys : (tab.map key).toFinset = (names.map key).toFinset := by
    ext k
    rw [List.mem_toFinset, List.mem_toFinset, h.mem_keys]
  rw [← hkeys, List.toFinset_card_of_nodup h.nodup, List.length_map]

end LastOf

/-! ## Stores -/

section Stored

variable {m m' : κ → β} {l : List (κ × β)} {k : κ}

/-- What a store holds once a table of keys and values was written into it in order. -/
def stored (m : κ → β) (l : List (κ × β)) : κ → β :=
  l.foldl (fun m e => Function.update m e.1 e.2) m

@[simp] theorem stored_nil : stored m [] = m := rfl

@[simp] theorem stored_cons (e : κ × β) :
    stored m (e :: l) = stored (Function.update m e.1 e.2) l := rfl

theorem stored_append (l l' : List (κ × β)) : stored m (l ++ l') = stored (stored m l) l' :=
  List.foldl_append

theorem stored_congr (h : m k = m' k) : stored m l k = stored m' l k := by
  induction l generalizing m m' with
  | nil => exact h
  | cons e l ih =>
    rw [stored_cons, stored_cons]
    refine ih ?_
    by_cases hk : k = e.1
    · rw [hk, Function.update_self, Function.update_self]
    · rw [Function.update_of_ne hk, Function.update_of_ne hk, h]

/-- A key that the table does not name keeps its value. -/
theorem stored_of_forall_ne (h : ∀ e ∈ l, e.1 ≠ k) : stored m l k = m k := by
  induction l generalizing m with
  | nil => rfl
  | cons e l ih =>
    rw [stored_cons, ih fun a ha => h a (List.mem_cons_of_mem e ha),
      Function.update_of_ne (h e List.mem_cons_self).symm]

/-- A key that the table names holds the value of one of the entries that name it. -/
theorem stored_mem (h : ∃ e ∈ l, e.1 = k) : (k, stored m l k) ∈ l := by
  induction l generalizing m with
  | nil =>
    obtain ⟨e, he, -⟩ := h
    cases he
  | cons e l ih =>
    rw [stored_cons]
    by_cases hl : ∃ a ∈ l, a.1 = k
    · exact List.mem_cons_of_mem e (ih hl)
    · push Not at hl
      obtain ⟨a, ha, rfl⟩ := h
      rcases List.mem_cons.1 ha with rfl | ha
      · rw [stored_of_forall_ne hl, Function.update_self]
        exact List.mem_cons_self
      · exact absurd rfl (hl a ha)

end Stored

end Table
