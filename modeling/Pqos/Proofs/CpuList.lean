import Pqos.CpuList
import Pqos.Proofs.RdtMask
import Mathlib.Data.List.DropRight

/-!
# CPU lists

The parser converts a number to 64 bits, keeps 32 of them and compares those with the size of a set,
so it takes what the grammar allows and numbers that come out small. What the printer puts in a
buffer it does not have to cut short is in the grammar, with the CPUs of the set as its items.
-/

namespace Pqos.Rdt

open CText

/-! ## The grammar -/

inductive CpuItem
  | cpu (n : Nat)
  | range (a b : Nat)

namespace CpuItem

/-- Both ends of a range, in either order. -/
def ends : CpuItem → Nat × Nat
  | cpu n => (n, n)
  | range a b => (a, b)

/-- The numbers written in an item satisfy `p`. -/
def All (p : Nat → Prop) (i : CpuItem) : Prop := p i.ends.1 ∧ p i.ends.2

/-- The CPUs of an item. -/
def Has (i : CpuItem) (k : Nat) : Prop :=
  Nat.min i.ends.1 i.ends.2 ≤ k ∧ k ≤ Nat.max i.ends.1 i.ends.2

end CpuItem

/-- An item, with blanks around its numbers. -/
inductive ItemText : CpuItem → List Char → Prop
  | cpu {g t g' : List Char} {n : Nat} : Blanks g → Digits 10 t n → Blanks g' →
    ItemText (.cpu n) (g ++ (t ++ g'))
  | range {g₁ t₁ g₂ g₃ t₂ g₄ : List Char} {a b : Nat} : Blanks g₁ → Digits 10 t₁ a → Blanks g₂ →
    Blanks g₃ → Digits 10 t₂ b → Blanks g₄ →
    ItemText (.range a b) (g₁ ++ (t₁ ++ (g₂ ++ '-' :: (g₃ ++ (t₂ ++ g₄)))))

/-- Items with commas between them. -/
inductive CpuListText : List CpuItem → List Char → Prop
  | last {i : CpuItem} {t : List Char} : ItemText i t → CpuListText [i] t
  | cons {i : CpuItem} {is : List CpuItem} {t s : List Char} : ItemText i t → CpuListText is s →
    CpuListText (i :: is) (t ++ ',' :: s)

/-- Every number in the list satisfies `p`. -/
def AllNumbers (p : Nat → Prop) (items : List CpuItem) : Prop := ∀ i ∈ items, i.All p

/-! ## Sets -/

theorem getLsbD_cpuSetRange {cpuset : CpuSet} {lo hi k : Nat} (hk : k < 1024) :
    (cpuSetRange cpuset lo hi).getLsbD k = (cpuset.getLsbD k || decide (lo ≤ k ∧ k ≤ hi)) := by
  have hfold : ∀ (l : List Nat) (set : CpuSet),
      (l.foldl (fun set idx => set ||| 1#1024 <<< idx) set).getLsbD k
        = (set.getLsbD k || decide (k ∈ l)) := by
    intro l
    induction l with
    | nil => intro set; simp
    | cons i l ih =>
      intro set
      rw [List.foldl_cons, ih, BitVec.getLsbD_or, BitVec.getLsbD_shiftLeft, BitVec.getLsbD_one,
        Bool.eq_iff_iff]
      simp only [Bool.or_eq_true, Bool.and_eq_true, decide_eq_true_eq, Bool.not_eq_true',
        decide_eq_false_iff_not, List.mem_cons]
      have hbit : (k < 1024 ∧ ¬ k < i) ∧ 0 < 1024 ∧ k - i = 0 ↔ k = i := by omega
      tauto
  have hmem : k ∈ List.range' lo (hi + 1 - lo) ↔ lo ≤ k ∧ k ≤ hi := by
    rw [List.mem_range'_1]
    omega
  rw [cpuSetRange, hfold, decide_eq_decide.2 hmem]

/-- What the code adds to a set for an item. -/
def addItem (cpuset : CpuSet) (i : CpuItem) : CpuSet :=
  cpuSetRange cpuset (Nat.min (i.ends.1 % 2 ^ 32) (i.ends.2 % 2 ^ 32))
    (Nat.max (i.ends.1 % 2 ^ 32) (i.ends.2 % 2 ^ 32))

/-- The union of items whose numbers are CPU numbers. -/
theorem getLsbD_addItems {items : List CpuItem} {cpuset : CpuSet} {k : Nat} (hk : k < 1024)
    (hitems : AllNumbers (· < 1024) items) :
    (items.foldl addItem cpuset).getLsbD k = true
      ↔ cpuset.getLsbD k = true ∨ ∃ i ∈ items, i.Has k := by
  induction items generalizing cpuset with
  | nil => simp
  | cons i items ih =>
    obtain ⟨ha, hb⟩ := hitems i List.mem_cons_self
    rw [List.foldl_cons, ih fun j hj => hitems j (List.mem_cons_of_mem i hj), addItem,
      getLsbD_cpuSetRange hk, Nat.mod_eq_of_lt (by omega), Nat.mod_eq_of_lt (by omega),
      Bool.or_eq_true, decide_eq_true_iff, or_assoc]
    simp only [List.mem_cons, exists_eq_or_imp]
    rfl

/-! ## Parsing -/

/-- The numbers the parser takes for CPU numbers. -/
def Taken (n : Nat) : Prop := n < 2 ^ 64 ∧ n % 2 ^ 32 < 1024

section Parse

variable {g t g' rest s s' : List Char} {n min : Nat} {cpuset : CpuSet}

theorem digits_not_blank (ht : Digits 10 t n) (rest : List Char) :
    ∀ c, (t ++ rest).head? = some c → isblank c = false := by
  intro a ha
  obtain ⟨c, tl, rfl, hc⟩ := ht.head
  obtain rfl : c = a := by simpa using ha
  exact isblank_of_isDigit (by decide) hc

theorem digits_head (ht : Digits 10 t n) : (t ++ rest).head?.any (isDigit 10) = true := by
  obtain ⟨c, tl, rfl, hc⟩ := ht.head
  simpa using hc

theorem blanks_stop {b : Nat} (hb : b ≤ 16) (hg : Blanks g) (hrest : Stops b rest) :
    Stops b (g ++ rest) := by
  rcases g with _ | ⟨c, g⟩
  · exact hrest
  · refine stops_cons ?_
    have hc := hg c List.mem_cons_self
    by_contra hd
    rw [Bool.not_eq_false] at hd
    rw [isblank_of_isDigit hb hd] at hc
    cases hc

/-- The blanks `g` after a number, and what is left when they are passed. -/
structure Ends (g rest : List Char) : Prop where
  blanks : Blanks g
  stops : Stops 10 (g ++ rest)
  not_blank : ∀ c, rest.head? = some c → isblank c = false

theorem ends_nil (hg : Blanks g) : Ends g [] :=
  ⟨hg, blanks_stop (by decide) hg stops_nil, fun c hc => by cases hc⟩

theorem ends_cons {c : Char} (hg : Blanks g) (h : isDigit 10 c = false ∧ isblank c = false) :
    Ends g (c :: s) := by
  refine ⟨hg, blanks_stop (by decide) hg (stops_cons h.1), fun a ha => ?_⟩
  rw [List.head?_cons, Option.some.injEq] at ha
  rw [← ha, h.2]

theorem ends_dash (hg : Blanks g) : Ends g ('-' :: s) := ends_cons hg (by decide)

theorem ends_comma (hg : Blanks g) : Ends g (',' :: s) := ends_cons hg (by decide)

/-- One number and what follows it, as the loop sees them. -/
theorem loop_number (hg : Blanks g) (ht : Digits 10 t n)
    (hend : Ends g' rest) :
    (g ++ (t ++ (g' ++ rest))).dropWhile isblank = t ++ (g' ++ rest)
      ∧ strtoull 10 (t ++ (g' ++ rest)) = (clamp n, g' ++ rest)
      ∧ erange 10 (t ++ (g' ++ rest)) = decide (2 ^ 64 ≤ n)
      ∧ (g' ++ rest).dropWhile isblank = rest := by
  have hread := strtoull_digits (b := 10) (by decide) ht
    hend.stops fun h => absurd h (by decide)
  exact ⟨(takeWhile_append_stop hg (digits_not_blank ht (g' ++ rest))).2, hread.1, hread.2,
    (takeWhile_append_stop hend.blanks hend.not_blank).2⟩

/-! ### A turn of the loop -/

theorem turn_untaken (hg : Blanks g) (ht : Digits 10 t n)
    (hend : Ends g' rest) (hn : ¬ Taken n) :
    cpusetTurn (g ++ (t ++ (g' ++ rest))) min cpuset = .error .einval := by
  obtain ⟨hstart, hread, herange, -⟩ := loop_number hg ht hend
  have hbad : erange 10 (t ++ (g' ++ rest)) = true
      ∨ (strtoull 10 (t ++ (g' ++ rest))).2 = t ++ (g' ++ rest)
      ∨ cpuSetsize ≤ (strtoull 10 (t ++ (g' ++ rest))).1 % 2 ^ 32 := by
    rw [herange, hread, decide_eq_true_iff]
    by_cases hbig : 2 ^ 64 ≤ n
    · exact Or.inl hbig
    · refine Or.inr (Or.inr ?_)
      rw [clamp_of_lt (Nat.not_le.1 hbig)]
      exact Nat.not_lt.1 fun hlt => hn ⟨Nat.not_le.1 hbig, hlt⟩
  unfold cpusetTurn
  simp only [hstart]
  rw [if_neg (by rw [digits_head ht]; simp), if_pos hbad]

/-- The start of the range that `n` ends. -/
def rangeStart (min n : Nat) : Nat := if min = cpuSetsize then n % 2 ^ 32 else min

/-- The set with the item that `n` ends. -/
def closeRange (cpuset : CpuSet) (min n : Nat) : CpuSet :=
  cpuSetRange cpuset (Nat.min (rangeStart min n) (n % 2 ^ 32))
    (Nat.max (rangeStart min n) (n % 2 ^ 32))

/-- What the turn of a number does at what follows the number. -/
def afterNumber (min n : Nat) (cpuset : CpuSet) : List Char → Except Stop Turn
  | '-' :: s => if min = cpuSetsize then .ok (.again s (n % 2 ^ 32) cpuset) else .error .einval
  | ',' :: s => .ok (.again s cpuSetsize (closeRange cpuset min n))
  | [] => .ok (.done [] (closeRange cpuset min n))
  | _ => .error .einval

theorem turn_taken (hg : Blanks g) (ht : Digits 10 t n) (hend : Ends g' rest) (hn : Taken n)
    (min : Nat) (cpuset : CpuSet) :
    cpusetTurn (g ++ (t ++ (g' ++ rest))) min cpuset = afterNumber min n cpuset rest := by
  obtain ⟨hstart, hread, herange, hafter⟩ := loop_number hg ht hend
  have hmove : g' ++ rest ≠ t ++ (g' ++ rest) := fun heq => by
    obtain ⟨c, tl, rfl, -⟩ := ht.head
    have hlen := congrArg List.length heq
    simp only [List.length_append, List.length_cons] at hlen
    omega
  have hgood : ¬ (erange 10 (t ++ (g' ++ rest)) = true
      ∨ (strtoull 10 (t ++ (g' ++ rest))).2 = t ++ (g' ++ rest)
      ∨ cpuSetsize ≤ (strtoull 10 (t ++ (g' ++ rest))).1 % 2 ^ 32) := by
    rw [herange, hread, decide_eq_true_iff, clamp_of_lt hn.1]
    exact fun h => h.elim (Nat.not_le.2 hn.1) fun h => h.elim hmove (Nat.not_le.2 hn.2)
  unfold cpusetTurn
  simp only [hstart]
  rw [if_neg (by rw [digits_head ht]; simp), if_neg hgood]
  simp only [hread, hafter, clamp_of_lt hn.1]
  rfl

theorem turn_dash (hg : Blanks g) (ht : Digits 10 t n) (hg' : Blanks g') (hn : Taken n) :
    cpusetTurn (g ++ (t ++ (g' ++ '-' :: s))) cpuSetsize cpuset
      = .ok (.again s (n % 2 ^ 32) cpuset) := by
  rw [turn_taken hg ht (ends_dash hg') hn, afterNumber, if_pos rfl]

/-! ### The loop -/

theorem from_error {e : Stop} (h : cpusetTurn s min cpuset = .error e) :
    strToCpusetFrom s min cpuset = .error e := by
  rw [strToCpusetFrom]
  split <;> simp_all

theorem from_done {cpuset' : CpuSet} (h : cpusetTurn s min cpuset = .ok (.done s' cpuset')) :
    strToCpusetFrom s min cpuset = .ok (s', cpuset') := by
  rw [strToCpusetFrom]
  split <;> simp_all

theorem from_again {min' : Nat} {cpuset' : CpuSet}
    (h : cpusetTurn s min cpuset = .ok (.again s' min' cpuset')) :
    strToCpusetFrom s min cpuset = strToCpusetFrom s' min' cpuset' := by
  rw [strToCpusetFrom]
  split <;> simp_all

theorem Taken.ne_setsize (h : Taken n) : n % 2 ^ 32 ≠ cpuSetsize := Nat.ne_of_lt h.2

/-- An item that is taken leaves the loop at what follows it. -/
theorem turn_item {i : CpuItem} {turn : Except Stop (List Char × CpuSet)} (h : ItemText i t)
    (hi : i.All Taken)
    (hrest : (rest = [] ∧ turn = .ok ([], addItem cpuset i))
      ∨ ∃ s, rest = ',' :: s ∧ turn = strToCpusetFrom s cpuSetsize (addItem cpuset i)) :
    strToCpusetFrom (t ++ rest) cpuSetsize cpuset = turn := by
  have hend : ∀ {g : List Char}, Blanks g → Ends g rest := by
    intro g hg
    rcases hrest with ⟨rfl, -⟩ | ⟨s, rfl, -⟩
    · exact ends_nil hg
    · exact ends_comma hg
  -- what the last number of the item does, whichever number the range starts with
  have hlast : ∀ {g t g' : List Char} {n min : Nat}, Blanks g → Digits 10 t n → Blanks g' →
      Taken n → closeRange cpuset min n = addItem cpuset i →
      strToCpusetFrom (g ++ (t ++ (g' ++ rest))) min cpuset = turn := by
    intro g t g' n min hg ht hg' hn hclose
    have hturn := turn_taken hg ht (hend hg') hn min cpuset
    rcases hrest with ⟨rfl, rfl⟩ | ⟨s, rfl, rfl⟩
    all_goals rw [afterNumber, hclose] at hturn
    · exact from_done hturn
    · exact from_again hturn
  cases h with
  | cpu hg ht hg' =>
    rw [List.append_assoc, List.append_assoc]
    refine hlast hg ht hg' hi.1 ?_
    simp only [closeRange, rangeStart, if_true, addItem, CpuItem.ends]
  | @range g₁ t₁ g₂ g₃ t₂ g₄ a b hg₁ ht₁ hg₂ hg₃ ht₂ hg₄ =>
    have ha : Taken a := hi.1
    simp only [List.append_assoc, List.cons_append]
    rw [from_again (turn_dash hg₁ ht₁ hg₂ hi.1)]
    refine hlast hg₃ ht₂ hg₄ hi.2 ?_
    simp only [closeRange, rangeStart, if_neg ha.ne_setsize, addItem, CpuItem.ends]

/-- A list whose numbers are taken is read to its end. -/
theorem from_list {items : List CpuItem} (h : CpuListText items s)
    (hitems : AllNumbers Taken items) :
    strToCpusetFrom s cpuSetsize cpuset = .ok ([], items.foldl addItem cpuset) := by
  induction h generalizing cpuset with
  | last ht =>
    have hturn := turn_item ht (hitems _ List.mem_cons_self)
      (Or.inl ⟨rfl, (rfl : (Except.ok ([], addItem cpuset _) : Except Stop _) = _)⟩)
    rwa [List.append_nil] at hturn
  | cons ht _ ih =>
    rw [turn_item ht (hitems _ List.mem_cons_self) (Or.inr ⟨_, rfl, rfl⟩)]
    exact ih fun j hj => hitems j (List.mem_cons_of_mem _ hj)

/-- A turn that is not refused passes a number that is taken. -/
theorem exists_number {turn : Turn} (h : cpusetTurn s min cpuset = .ok turn) :
    ∃ g t g' n rest, s = g ++ (t ++ (g' ++ rest)) ∧ Blanks g ∧ Digits 10 t n
      ∧ Ends g' rest ∧ Taken n := by
  have hs : s = s.takeWhile isblank ++ s.dropWhile isblank :=
    List.takeWhile_append_dropWhile.symm
  generalize hu : s.dropWhile isblank = u at hs
  have hhead : u.head?.any (isDigit 10) = true := by
    by_contra hno
    unfold cpusetTurn at h
    simp only [hu] at h
    rw [if_pos (Bool.eq_false_iff.2 hno)] at h
    cases h
  have hsplit : u = u.takeWhile (isDigit 10) ++ ((u.dropWhile (isDigit 10)).takeWhile isblank
      ++ (u.dropWhile (isDigit 10)).dropWhile isblank) := by
    rw [List.takeWhile_append_dropWhile, List.takeWhile_append_dropWhile]
  have hblank : ∀ v : List Char, Blanks (v.takeWhile isblank) := fun v c hc =>
    List.mem_takeWhile_imp hc
  have hend : Ends ((u.dropWhile (isDigit 10)).takeWhile isblank)
      ((u.dropWhile (isDigit 10)).dropWhile isblank) := by
    refine ⟨hblank _, ?_, fun c hc => head_dropWhile hc⟩
    rw [List.takeWhile_append_dropWhile]
    exact stops_dropWhile
  rw [hsplit] at hs
  have hdigits := digits_takeWhile hhead
  by_cases hn : Taken (ofDigits 10 (u.takeWhile (isDigit 10)))
  · exact ⟨_, _, _, _, _, hs, hblank _, hdigits, hend, hn⟩
  · rw [hs, turn_untaken (hblank _) hdigits hend hn] at h
    cases h

theorem afterNumber_eq_ok {turn : Turn} (h : afterNumber min n cpuset rest = .ok turn) :
    rest = [] ∨ (∃ s, rest = ',' :: s) ∨ ∃ s, rest = '-' :: s ∧ min = cpuSetsize := by
  unfold afterNumber at h
  split at h
  · split_ifs at h with hmin
    exact Or.inr (Or.inr ⟨_, rfl, hmin⟩)
  · exact Or.inr (Or.inl ⟨_, rfl⟩)
  · exact Or.inl rfl
  · cases h

/-- A number at which the loop does not stop, and what the loop goes on with. -/
theorem from_eq_ok {r : List Char × CpuSet} (h : strToCpusetFrom s min cpuset = .ok r) :
    ∃ g t g' n rest, s = g ++ (t ++ (g' ++ rest)) ∧ Blanks g ∧ Digits 10 t n ∧ Blanks g' ∧ Taken n
      ∧ (rest = []
        ∨ (∃ s', rest = ',' :: s'
          ∧ strToCpusetFrom s' cpuSetsize (closeRange cpuset min n) = .ok r)
        ∨ ∃ s', rest = '-' :: s' ∧ strToCpusetFrom s' (n % 2 ^ 32) cpuset = .ok r) := by
  rcases hturn : cpusetTurn s min cpuset with e | turn
  · rw [from_error hturn] at h
    cases h
  · obtain ⟨g, t, g', n, rest, rfl, hg, ht, hend, hn⟩ := exists_number hturn
    refine ⟨g, t, g', n, rest, rfl, hg, ht, hend.blanks, hn, ?_⟩
    have hafter := turn_taken hg ht hend hn min cpuset
    rcases afterNumber_eq_ok (hafter.symm.trans hturn) with rfl | ⟨s', rfl⟩ | ⟨s', rfl, hmin⟩
    · exact Or.inl rfl
    · rw [from_again hafter] at h
      exact Or.inr (Or.inl ⟨s', rfl, h⟩)
    · rw [afterNumber, if_pos hmin] at hafter
      rw [from_again hafter] at h
      exact Or.inr (Or.inr ⟨s', rfl, h⟩)

/-- What is read to its end is a list. -/
theorem list_of_from {r : List Char × CpuSet} (h : strToCpusetFrom s cpuSetsize cpuset = .ok r) :
    ∃ items, CpuListText items s ∧ AllNumbers Taken items := by
  have hsingle : ∀ {i : CpuItem}, i.All Taken → AllNumbers Taken [i] := fun hi j hj =>
    (List.mem_singleton.1 hj) ▸ hi
  have hcons : ∀ {i : CpuItem} {is : List CpuItem}, i.All Taken → AllNumbers Taken is →
      AllNumbers Taken (i :: is) := fun hi his j hj =>
    (List.mem_cons.1 hj).elim (fun h => h ▸ hi) (his j)
  induction hlen : s.length using Nat.strong_induction_on generalizing s cpuset with
  | _ len ih =>
    subst hlen
    obtain ⟨g, t, g', n, rest, rfl, hg, ht, hg', hn, hrest⟩ := from_eq_ok h
    rcases hrest with rfl | ⟨s', rfl, hgo⟩ | ⟨s', rfl, hgo⟩
    · refine ⟨[.cpu n], .last ?_, hsingle ⟨hn, hn⟩⟩
      rw [List.append_nil]
      exact .cpu hg ht hg'
    · have hlt : s'.length < (g ++ (t ++ (g' ++ ',' :: s'))).length := by
        simp only [List.length_append, List.length_cons]
        omega
      obtain ⟨items, hlist, hitems⟩ := ih _ hlt hgo rfl
      have htext := CpuListText.cons (.cpu hg ht hg') hlist
      simp only [List.append_assoc] at htext
      exact ⟨_, htext, hcons ⟨hn, hn⟩ hitems⟩
    · -- a range has started, and a second dash would be refused
      obtain ⟨k, u, k', m, rest', rfl, hk, hu, hk', hm, hrest'⟩ := from_eq_ok hgo
      rcases hrest' with rfl | ⟨s'', rfl, hgo'⟩ | ⟨s'', rfl, -⟩
      · refine ⟨[.range n m], .last ?_, hsingle ⟨hn, hm⟩⟩
        rw [List.append_nil]
        exact .range hg ht hg' hk hu hk'
      · have hlt : s''.length
            < (g ++ (t ++ (g' ++ '-' :: (k ++ (u ++ (k' ++ ',' :: s'')))))).length := by
          simp only [List.length_append, List.length_cons]
          omega
        obtain ⟨items, hlist, hitems⟩ := ih _ hlt hgo' rfl
        have htext := CpuListText.cons (.range hg ht hg' hk hu hk') hlist
        simp only [List.append_assoc, List.cons_append] at htext
        exact ⟨_, htext, hcons ⟨hn, hm⟩ hitems⟩
      · have hdash := turn_taken hk hu (ends_dash (s := s'') hk') hm (n % 2 ^ 32)
          cpuset
        rw [afterNumber, if_neg hn.ne_setsize] at hdash
        rw [from_error hdash] at hgo
        cases hgo

/-! ### There is one way to read a list -/

theorem number_unique {k u k' rest' : List Char} {m : Nat} (hg : Blanks g) (ht : Digits 10 t n)
    (hend : Ends g' rest) (hk : Blanks k) (hu : Digits 10 u m) (hend' : Ends k' rest')
    (h : g ++ (t ++ (g' ++ rest)) = k ++ (u ++ (k' ++ rest'))) : n = m ∧ rest = rest' := by
  have hstart := (takeWhile_append_stop hg (digits_not_blank ht (g' ++ rest))).2
  rw [h, (takeWhile_append_stop hk (digits_not_blank hu (k' ++ rest'))).2] at hstart
  have hspan := ht.span hend.stops
  rw [← hstart, (hu.span hend'.stops).1, (hu.span hend'.stops).2] at hspan
  have hblank := (takeWhile_append_stop hend.blanks hend.not_blank).2
  rw [← hspan.2, (takeWhile_append_stop hend'.blanks hend'.not_blank).2] at hblank
  exact ⟨by rw [← ht.value, ← hu.value, hspan.1], hblank.symm⟩

/-- What may follow an item. -/
def Closed (rest : List Char) : Prop := rest = [] ∨ ∃ s, rest = ',' :: s

theorem Closed.ends (h : Closed rest) (hg : Blanks g) : Ends g rest := by
  rcases h with rfl | ⟨s, rfl⟩
  · exact ends_nil hg
  · exact ends_comma hg

theorem Closed.not_dash (h : Closed ('-' :: s)) : False := by
  rcases h with h | ⟨s', h⟩ <;> simp at h

theorem item_unique {i i' : CpuItem} {t' rest' : List Char} (h : ItemText i t)
    (h' : ItemText i' t') (hrest : Closed rest) (hrest' : Closed rest')
    (heq : t ++ rest = t' ++ rest') : i = i' ∧ rest = rest' := by
  cases h with
  | cpu hg ht hg' =>
    cases h' with
    | cpu hk hu hk' =>
      simp only [List.append_assoc] at heq
      obtain ⟨rfl, rfl⟩ := number_unique hg ht (hrest.ends hg') hk hu (hrest'.ends hk') heq
      exact ⟨rfl, rfl⟩
    | range hk hu hk' _ _ _ =>
      simp only [List.append_assoc, List.cons_append] at heq
      obtain ⟨-, rfl⟩ := number_unique hg ht (hrest.ends hg') hk hu (ends_dash hk') heq
      exact hrest.not_dash.elim
  | range hg₁ ht₁ hg₂ hg₃ ht₂ hg₄ =>
    cases h' with
    | cpu hk hu hk' =>
      simp only [List.append_assoc, List.cons_append] at heq
      obtain ⟨-, rfl⟩ := number_unique hg₁ ht₁ (ends_dash hg₂) hk hu (hrest'.ends hk') heq
      exact hrest'.not_dash.elim
    | range hk₁ hu₁ hk₂ hk₃ hu₂ hk₄ =>
      simp only [List.append_assoc, List.cons_append] at heq
      obtain ⟨rfl, htail⟩ :=
        number_unique hg₁ ht₁ (ends_dash hg₂) hk₁ hu₁ (ends_dash hk₂) heq
      obtain ⟨rfl, rfl⟩ := number_unique hg₃ ht₂ (hrest.ends hg₄) hk₃ hu₂ (hrest'.ends hk₄)
        (List.cons.inj htail).2
      exact ⟨rfl, rfl⟩

theorem list_unique {items items' : List CpuItem} (h : CpuListText items s)
    (h' : CpuListText items' s) : items = items' := by
  induction h generalizing items' with
  | @last i t ht =>
    generalize hs : t = s at h'
    cases h' with
    | last ht' =>
      obtain ⟨rfl, -⟩ := item_unique ht ht' (Or.inl rfl) (Or.inl rfl)
        (by rw [List.append_nil, List.append_nil, hs])
      rfl
    | @cons i' is' t' s' ht' _ =>
      obtain ⟨-, hnil⟩ := item_unique ht ht' (Or.inl rfl) (Or.inr ⟨s', rfl⟩)
        (by rw [List.append_nil, hs])
      cases hnil
  | @cons i is t s ht _ ih =>
    generalize hs : t ++ ',' :: s = u at h'
    cases h' with
    | last ht' =>
      obtain ⟨-, hnil⟩ := item_unique ht ht' (Or.inr ⟨s, rfl⟩) (Or.inl rfl)
        (by rw [List.append_nil, hs])
      cases hnil
    | @cons i' is' t' s' ht' hs' =>
      obtain ⟨rfl, htail⟩ := item_unique ht ht' (Or.inr ⟨s, rfl⟩) (Or.inr ⟨s', rfl⟩) hs
      obtain ⟨-, rfl⟩ := List.cons.inj htail
      rw [ih hs']

/-! ### The whole string -/

/-- The loop skips blanks itself. -/
theorem from_dropWhile (s : List Char) :
    strToCpusetFrom (s.dropWhile isblank) min cpuset = strToCpusetFrom s min cpuset := by
  have hturn : cpusetTurn (s.dropWhile isblank) min cpuset = cpusetTurn s min cpuset := by
    unfold cpusetTurn
    rw [List.dropWhile_idempotent]
  rcases h : cpusetTurn s min cpuset with e | ⟨s', min', cpuset'⟩ | ⟨s', cpuset'⟩
  · rw [from_error h, from_error (hturn.trans h)]
  · rw [from_again h, from_again (hturn.trans h)]
  · rw [from_done h, from_done (hturn.trans h)]

theorem from_headless (h : (s.dropWhile isblank).head?.any (isDigit 10) = false) :
    strToCpusetFrom s min cpuset = .error .einval := by
  refine from_error ?_
  unfold cpusetTurn
  exact if_pos h

theorem strToCpuset_eq (s : List Char) : strToCpuset s s.length
    = (strToCpusetFrom s cpuSetsize 0).map fun r => (s.length - r.1.length, r.2) := by
  unfold strToCpuset
  rw [List.take_length]
  dsimp only
  rw [from_dropWhile]
  split_ifs with h
  · have hhead : (s.dropWhile isblank).head?.any (isDigit 10) = false := by
      rcases h with h | h
      · rw [List.eq_nil_of_length_eq_zero h]
        rfl
      · exact h
    rw [from_headless hhead]
    rfl
  · rfl

/-- A list of numbers that are taken is parsed to its end. -/
theorem strToCpuset_list {items : List CpuItem} (h : CpuListText items s)
    (hitems : AllNumbers Taken items) :
    strToCpuset s s.length = .ok (s.length, items.foldl addItem 0) := by
  rw [strToCpuset_eq, from_list h hitems]
  rfl

theorem strToCpuset_eq_ok {r : Nat × CpuSet} (h : strToCpuset s s.length = .ok r) :
    ∃ items, CpuListText items s ∧ AllNumbers Taken items
      ∧ r = (s.length, items.foldl addItem 0) := by
  have hmap := h
  rw [strToCpuset_eq] at hmap
  rcases hfrom : strToCpusetFrom s cpuSetsize 0 with e | r'
  · rw [hfrom] at hmap
    cases hmap
  · obtain ⟨items, hlist, hitems⟩ := list_of_from hfrom
    rw [strToCpuset_list hlist hitems, Except.ok.injEq] at h
    exact ⟨items, hlist, hitems, h.symm⟩

end Parse

/-- What is asked of the parser on `s`: it accepts the lists of CPU numbers, returns their length
and gives the union of their items. -/
structure ListMeets (s : List Char) : Prop where
  accepts : (∃ r, strToCpuset s s.length = .ok r)
    ↔ ∃ items, CpuListText items s ∧ AllNumbers (· < cpuSetsize) items
  union : ∀ ret cpuset, strToCpuset s s.length = .ok (ret, cpuset) → ret = s.length
    ∧ ∀ items, CpuListText items s →
      ∀ k < cpuSetsize, cpuset.getLsbD k = true ↔ ∃ i ∈ items, i.Has k

theorem AllNumbers.taken {items : List CpuItem} (h : AllNumbers (· < cpuSetsize) items) :
    AllNumbers Taken items := by
  have htaken : ∀ n < cpuSetsize, Taken n := fun n hn => by
    unfold cpuSetsize at hn
    unfold Taken
    omega
  exact fun i hi => ⟨htaken _ (h i hi).1, htaken _ (h i hi).2⟩

/-- The parser does what is asked of it exactly on the strings that are not a list in which every
number comes out small and one is not. -/
theorem strToCpuset_meets_iff (s : List Char) : ListMeets s
    ↔ ∀ items, CpuListText items s →
      AllNumbers (fun n => n < 2 ^ 64 ∧ n % 2 ^ 32 < cpuSetsize) items →
      AllNumbers (· < cpuSetsize) items := by
  constructor
  · intro h items hlist hitems
    obtain ⟨items', hlist', hitems'⟩ := h.accepts.1 ⟨_, strToCpuset_list hlist hitems⟩
    rwa [list_unique hlist hlist']
  · intro h
    refine ⟨⟨?_, ?_⟩, ?_⟩
    · rintro ⟨r, hr⟩
      obtain ⟨items, hlist, hitems, -⟩ := strToCpuset_eq_ok hr
      exact ⟨items, hlist, h items hlist hitems⟩
    · rintro ⟨items, hlist, hitems⟩
      exact ⟨_, strToCpuset_list hlist hitems.taken⟩
    · intro ret cpuset hok
      obtain ⟨items, hlist, hitems, hr⟩ := strToCpuset_eq_ok hok
      obtain ⟨rfl, rfl⟩ := Prod.mk.inj hr
      refine ⟨rfl, fun items' hlist' k hk => ?_⟩
      rw [list_unique hlist' hlist, getLsbD_addItems hk (h items hlist hitems)]
      simp

/-- 4294967296 is taken for CPU 0. -/
theorem strToCpuset_wraps :
    strToCpuset ['4', '2', '9', '4', '9', '6', '7', '2', '9', '6'] 10 = .ok (10, 1#1024)
      ∧ ¬ ListMeets ['4', '2', '9', '4', '9', '6', '7', '2', '9', '6'] := by
  have htext : ItemText (.cpu 4294967296)
      ([] ++ (['4', '2', '9', '4', '9', '6', '7', '2', '9', '6'] ++ [])) :=
    .cpu (by simp [Blanks]) ⟨by simp, List.all_eq_true.1 (by decide), by decide⟩ (by simp [Blanks])
  have hlist : CpuListText [.cpu 4294967296] ['4', '2', '9', '4', '9', '6', '7', '2', '9', '6'] :=
    .last htext
  have hitems : AllNumbers Taken [.cpu 4294967296] := fun i hi => by
    rw [List.mem_singleton.1 hi]
    exact ⟨⟨by decide, by decide⟩, by decide, by decide⟩
  have hok := strToCpuset_list hlist hitems
  refine ⟨hok.trans (by decide +kernel), fun hmeets => ?_⟩
  obtain ⟨items, hlist', hsmall⟩ := hmeets.accepts.1 ⟨_, hok⟩
  rw [list_unique hlist' hlist] at hsmall
  exact absurd (hsmall _ List.mem_cons_self).1 (by decide)

/-! ## Printing -/

/-- The CPUs of a set, from the lowest on. -/
def cpus (cpuset : CpuSet) : List Nat := (List.range cpuSetsize).filter fun j => cpuset.getLsbD j

/-- The numbers of CPUs with commas between them. -/
def cpuText (cpuset : CpuSet) : List Char :=
  [','].intercalate ((cpus cpuset).map (Nat.toDigits 10))

/-- What the loop prints for the CPUs `js`: a comma is after every number. -/
def printed (cpuset : CpuSet) (js : List Nat) : List Char :=
  (js.filter fun j => cpuset.getLsbD j).flatMap fun j => Nat.toDigits 10 j ++ [',']

/-- A buffer of `n` characters with `t` at its head. -/
def filled (n : Nat) (t : List Char) : List Char := t ++ List.replicate (n - t.length) nul

section Print

variable {n pos size : Nat} {a b c t text buff : List Char} {cpuset : CpuSet}

theorem filled_length (h : t.length ≤ n) : (filled n t).length = n := by
  rw [filled, List.length_append, List.length_replicate]
  omega

theorem store_append (h : b.length = text.length) :
    store (a ++ (b ++ c)) a.length text = some (a ++ (text ++ c)) := by
  have hfit : (0 : Int) ≤ a.length ∧ (a.length : Int) + text.length ≤ (a ++ (b ++ c)).length := by
    simp only [List.length_append]
    omega
  have hdrop : (a ++ (b ++ c)).drop (a.length + text.length) = c := by
    rw [← h, ← List.append_assoc, ← List.length_append, List.drop_left]
  rw [store, if_pos hfit, Int.toNat_natCast, List.take_left, hdrop, List.append_assoc]

/-- Writing at the head of what is not filled. -/
theorem store_filled (h : t.length + text.length ≤ n) :
    store (filled n t) t.length text = some (filled n (t ++ text)) := by
  have hsplit : List.replicate (n - t.length) nul
      = List.replicate text.length nul ++ List.replicate (n - (t ++ text).length) nul := by
    rw [List.replicate_append_replicate, List.length_append]
    congr 1
    omega
  rw [filled, hsplit, store_append (by rw [List.length_replicate]), filled, List.append_assoc]

/-- A terminator where nothing is filled changes nothing. -/
theorem filled_nul (h : t.length < n) : filled n (t ++ [nul]) = filled n t := by
  have hsplit : List.replicate (n - t.length) nul
      = nul :: List.replicate (n - (t ++ [nul]).length) nul := by
    rw [← List.replicate_succ, List.length_append, List.length_singleton]
    congr 1
    omega
  rw [filled, filled, hsplit, List.append_assoc]
  rfl

theorem snprintf_filled (hsize : 0 < size) (h : t.length + size ≤ n) :
    snprintf (filled n t) t.length size text = some (filled n (t ++ text.take (size - 1))) := by
  have htake := List.length_take_le (size - 1) text
  rw [snprintf, if_neg (Nat.pos_iff_ne_zero.1 hsize), store_filled, ← List.append_assoc, filled_nul]
  · rw [List.length_append]
    omega
  · rw [List.length_append, List.length_singleton]
    omega

theorem usub_of_le {x y : Nat} (h : y ≤ x) (hx : x < 2 ^ 32) : usub x y = x - y := by
  unfold usub
  omega

/-- Three dots before the last place. -/
theorem store_dots (h : 4 ≤ n) (ht : t.length = n - 2) :
    store (filled n t) ((n : Int) - 4) ['.', '.', '.']
      = some (t.take (n - 4) ++ (['.', '.', '.'] ++ [nul])) := by
  have hsplit : filled n t = t.take (n - 4) ++ ((t.drop (n - 4) ++ [nul]) ++ [nul]) := by
    have htwo : n - t.length = 2 := by omega
    rw [filled, htwo, List.append_assoc, ← List.append_assoc, List.take_append_drop]
    rfl
  have hpos : (n : Int) - 4 = (t.take (n - 4)).length := by
    rw [List.length_take]
    omega
  rw [hpos, hsplit, store_append]
  rw [List.length_append, List.length_drop, ht]
  simp only [List.length_cons, List.length_nil]
  omega

theorem printed_cons (j : Nat) (js : List Nat) : printed cpuset (j :: js)
    = (if cpuset.getLsbD j then Nat.toDigits 10 j ++ [','] else []) ++ printed cpuset js := by
  unfold printed
  rw [List.filter_cons]
  split_ifs <;> simp

/-- The text is printed whole, or cut to leave room for the dots. -/
theorem cpusetToStrFrom_eq (hn : n < 2 ^ 32) : ∀ {js : List Nat} {t : List Char},
    t.length < n - 1 → cpusetToStrFrom n cpuset js (filled n t) t.length
      = if (t ++ printed cpuset js).length < n - 1 then
          some (filled n (t ++ printed cpuset js), (t ++ printed cpuset js).length)
        else if 4 ≤ n then
          some ((t ++ printed cpuset js).take (n - 4) ++ (['.', '.', '.'] ++ [nul]), n)
        else none
  | [], t, ht => by
    have hnil : t ++ printed cpuset [] = t := List.append_nil t
    rw [hnil, if_pos ht, cpusetToStrFrom]
  | j :: js, t, ht => by
    rw [cpusetToStrFrom, printed_cons]
    by_cases hj : cpuset.getLsbD j = true
    · rw [if_neg (by rw [hj]; simp), if_pos hj]
      generalize Nat.toDigits 10 j ++ [','] = item
      dsimp only
      have hsize : usub (usub n t.length) 1 = n - t.length - 1 := by
        rw [usub_of_le (by omega) hn, usub_of_le (by omega) (by omega)]
      rw [hsize, snprintf_filled (by omega) (by omega), Option.bind_some, usub_of_le (by omega) hn]
      by_cases hfit : t.length + item.length < n - 1
      · -- there is room, and the loop goes on
        have hlen : (t ++ item).length = t.length + item.length := List.length_append
        have htake : item.take (n - t.length - 1 - 1) = item :=
          List.take_of_length_le (by omega)
        rw [if_neg (by omega), htake, ← hlen, cpusetToStrFrom_eq hn (by omega), List.append_assoc]
      · have hlong : ¬ (t ++ (item ++ printed cpuset js)).length < n - 1 := by
          simp only [List.length_append]
          omega
        rw [if_pos (by omega), if_neg hlong]
        have htake : t ++ item.take (n - t.length - 1 - 1) = (t ++ item).take (n - 2) := by
          have hcut : n - t.length - 1 - 1 = n - 2 - t.length := by omega
          rw [List.take_append, List.take_of_length_le (by omega : t.length ≤ n - 2), hcut]
        have hlen : ((t ++ item).take (n - 2)).length = n - 2 := by
          rw [List.length_take, List.length_append]
          omega
        rw [htake]
        by_cases h4 : 4 ≤ n
        · have hdots := store_dots h4 hlen
          have hhead : ((t ++ item).take (n - 2)).take (n - 4)
              = (t ++ (item ++ printed cpuset js)).take (n - 4) := by
            have hlong' : n - 4 ≤ (t ++ item).length := by
              rw [List.length_append]
              omega
            have hmin : min (n - 4) (n - 2) = n - 4 := by omega
            rw [List.take_take, hmin, ← List.append_assoc, List.take_append_of_le_length hlong']
          rw [if_pos h4, hdots, hhead]
          rfl
        · have hout : ¬ ((0 : Int) ≤ (n : Int) - 4
              ∧ (n : Int) - 4 + (['.', '.', '.'] : List Char).length
              ≤ (filled n ((t ++ item).take (n - 2))).length) := by omega
          rw [if_neg h4, store, if_neg hout]
          rfl
    · rw [if_pos (Bool.eq_false_iff.2 hj), if_neg hj, List.nil_append]
      exact cpusetToStrFrom_eq hn ht

theorem flatMap_comma : ∀ {tokens : List (List Char)}, tokens ≠ [] →
    (tokens.flatMap fun t => t ++ [',']) = [','].intercalate tokens ++ [',']
  | [t], _ => by simp [List.intercalate]
  | t :: u :: tokens, _ => by
    rw [List.flatMap_cons, flatMap_comma (List.cons_ne_nil u tokens), List.intercalate_cons_cons]
    simp only [List.append_assoc]

theorem cpus_ne_nil (h : cpuset ≠ 0) : cpus cpuset ≠ [] := by
  intro hnil
  refine h (BitVec.eq_of_getLsbD_eq fun k hk => ?_)
  have hout : k ∉ cpus cpuset := by
    rw [hnil]
    exact List.not_mem_nil
  have hbit : cpuset.getLsbD k = false := by
    by_contra hset
    exact hout (List.mem_filter.2 ⟨List.mem_range.2 hk, Bool.not_eq_false _ ▸ hset⟩)
  rw [hbit]
  simp

theorem printed_all (h : cpuset ≠ 0) :
    printed cpuset (List.range cpuSetsize) = cpuText cpuset ++ [','] := by
  have hmap : printed cpuset (List.range cpuSetsize)
      = ((cpus cpuset).map (Nat.toDigits 10)).flatMap fun t => t ++ [','] := by
    rw [List.flatMap_map]
    rfl
  rw [hmap, flatMap_comma (by simpa using cpus_ne_nil h)]
  rfl

/-- What is in the buffer after printing. -/
theorem cpusetToStr_eq (hn : n < 2 ^ 32) (h : cpuset ≠ 0) (h2 : 2 ≤ n) : cpusetToStr n cpuset
    = if (cpuText cpuset).length + 3 ≤ n then some (filled n (cpuText cpuset))
      else if 4 ≤ n then
        some ((cpuText cpuset ++ [',']).take (n - 4) ++ (['.', '.', '.'] ++ [nul]))
      else none := by
  have hstart : List.replicate n nul = filled n [] := rfl
  have hroom : ([] : List Char).length < n - 1 := by
    rw [List.length_nil]
    omega
  have hfrom : cpusetToStrFrom n cpuset (List.range cpuSetsize) (filled n []) 0 = _ :=
    cpusetToStrFrom_eq hn hroom
  rw [List.nil_append, printed_all h] at hfrom
  have hlen : (cpuText cpuset ++ [',']).length = (cpuText cpuset).length + 1 := by
    rw [List.length_append, List.length_singleton]
  unfold cpusetToStr
  rw [hstart]
  refine (congrArg (fun x => Option.bind x _) hfrom).trans ?_
  by_cases hfit : (cpuText cpuset).length + 3 ≤ n
  · -- the comma after the last number becomes the terminator
    rw [if_pos hfit, if_pos (by omega), Option.bind_some]
    dsimp only
    have hsplit : filled n (cpuText cpuset ++ [','])
        = cpuText cpuset
          ++ ([','] ++ List.replicate (n - (cpuText cpuset ++ [',']).length) nul) := by
      rw [filled, List.append_assoc]
    have hjoin :
        cpuText cpuset ++ ([nul] ++ List.replicate (n - (cpuText cpuset ++ [',']).length) nul)
        = filled n (cpuText cpuset) := by
      rw [← filled_nul (by omega), filled, List.append_assoc, hlen, List.length_append]
      rfl
    have hcomma : [','].length = [nul].length := rfl
    rw [hlen, usub_of_le (by omega) (by omega), Nat.add_sub_cancel, hsplit, store_append hcomma,
      hjoin]
  · rw [if_neg hfit, if_neg (by omega)]
    by_cases h4 : 4 ≤ n
    · have htake : ((cpuText cpuset ++ [',']).take (n - 4)).length = n - 4 := by
        rw [List.length_take]
        omega
      have hpos : n - 1
          = ((cpuText cpuset ++ [',']).take (n - 4) ++ ['.', '.', '.']).length := by
        rw [List.length_append, htake]
        simp only [List.length_cons, List.length_nil]
        omega
      rw [if_pos h4, if_pos h4, Option.bind_some]
      dsimp only
      rw [usub_of_le (by omega) hn, hpos, ← List.append_assoc]
      exact store_append (b := [nul]) (c := []) rfl
    · rw [if_neg h4, if_neg h4]
      rfl

/-! ### What the parser makes of it -/

theorem blanks_nil : Blanks [] := fun _ hc => absurd hc List.not_mem_nil

theorem list_toDigits : ∀ {l : List Nat}, l ≠ [] →
    CpuListText (l.map .cpu) ([','].intercalate (l.map (Nat.toDigits 10)))
  | [j], _ => by
    have htext := ItemText.cpu blanks_nil (digits_toDigits j) blanks_nil
    rw [List.nil_append, List.append_nil] at htext
    exact .last (by simpa [List.intercalate] using htext)
  | j :: k :: l, _ => by
    have htext := ItemText.cpu blanks_nil (digits_toDigits j) blanks_nil
    rw [List.nil_append, List.append_nil] at htext
    have hcons := CpuListText.cons htext (list_toDigits (List.cons_ne_nil k l))
    simpa [List.intercalate_cons_cons] using hcons

/-- The text of a set is read as the set. -/
theorem strToCpuset_cpuText (h : cpuset ≠ 0) :
    strToCpuset (cpuText cpuset) (cpuText cpuset).length
      = .ok ((cpuText cpuset).length, cpuset) := by
  have hsmall : AllNumbers (· < cpuSetsize) ((cpus cpuset).map .cpu) := by
    intro i hi
    obtain ⟨j, hj, rfl⟩ := List.mem_map.1 hi
    have hlt := List.mem_range.1 (List.mem_filter.1 hj).1
    exact ⟨hlt, hlt⟩
  rw [cpuText, strToCpuset_list (list_toDigits (cpus_ne_nil h)) hsmall.taken, Except.ok.injEq,
    Prod.mk.injEq]
  refine ⟨rfl, BitVec.eq_of_getLsbD_eq fun k hk => ?_⟩
  rw [Bool.eq_iff_iff, getLsbD_addItems hk hsmall]
  have hhas : (∃ i ∈ (cpus cpuset).map CpuItem.cpu, i.Has k) ↔ k ∈ cpus cpuset := by
    constructor
    · rintro ⟨i, hi, hk⟩
      obtain ⟨j, hj, rfl⟩ := List.mem_map.1 hi
      have hkj : k = j := by
        have hmin : Nat.min j j = j := Nat.min_self j
        have hmax : Nat.max j j = j := Nat.max_self j
        simp only [CpuItem.Has, CpuItem.ends, hmin, hmax] at hk
        omega
      rwa [hkj]
    · intro hk
      refine ⟨.cpu k, List.mem_map_of_mem hk, ?_⟩
      simp [CpuItem.Has, CpuItem.ends]
  rw [hhas, cpus, List.mem_filter, List.mem_range]
  simp [cpuSetsize, hk]

/-- What stands in a list of CPUs. -/
theorem mem_list {items : List CpuItem} {s : List Char} (h : CpuListText items s) {e : Char}
    (he : e ∈ s) : isblank e = true ∨ isDigit 10 e = true ∨ e = '-' ∨ e = ',' := by
  have hitem : ∀ {i : CpuItem} {t : List Char}, ItemText i t → e ∈ t →
      isblank e = true ∨ isDigit 10 e = true ∨ e = '-' ∨ e = ',' := by
    intro i t ht he
    cases ht with
    | cpu hg ht hg' =>
      simp only [List.mem_append] at he
      rcases he with he | he | he
      · exact Or.inl (hg e he)
      · exact Or.inr (Or.inl (ht.digit e he))
      · exact Or.inl (hg' e he)
    | range hg₁ ht₁ hg₂ hg₃ ht₂ hg₄ =>
      simp only [List.mem_append, List.mem_cons] at he
      rcases he with he | he | he | he | he | he | he
      · exact Or.inl (hg₁ e he)
      · exact Or.inr (Or.inl (ht₁.digit e he))
      · exact Or.inl (hg₂ e he)
      · exact Or.inr (Or.inr (Or.inl he))
      · exact Or.inl (hg₃ e he)
      · exact Or.inr (Or.inl (ht₂.digit e he))
      · exact Or.inl (hg₄ e he)
  induction h with
  | last ht => exact hitem ht he
  | cons ht _ ih =>
    rw [List.mem_append, List.mem_cons] at he
    rcases he with he | he | he
    · exact hitem ht he
    · exact Or.inr (Or.inr (Or.inr he))
    · exact ih he

theorem strToCpuset_dot {s : List Char} (h : '.' ∈ s) {r : Nat × CpuSet} :
    strToCpuset s s.length ≠ .ok r := by
  intro hok
  obtain ⟨items, hlist, -⟩ := strToCpuset_eq_ok hok
  have hdot := mem_list hlist h
  revert hdot
  decide

theorem nul_not_mem_cpuText : nul ∉ cpuText cpuset := by
  intro h
  rcases mem_intercalate h with h | ⟨t, ht, hc⟩
  · revert h
    decide
  · obtain ⟨j, -, rfl⟩ := List.mem_map.1 ht
    have hdigit := (digits_toDigits j).digit _ hc
    revert hdigit
    decide

theorem cstr_append (h : nul ∉ t) : cstr (t ++ nul :: a) = t := by
  have hstop : ∀ e, (nul :: a).head? = some e → decide (e ≠ Char.ofNat 0) = false := by
    intro e he
    obtain rfl : nul = e := by simpa using he
    rfl
  refine (takeWhile_append_stop (fun e he => ?_) hstop).1
  rw [decide_eq_true_iff]
  rintro rfl
  exact h he

theorem cstr_filled (h : nul ∉ t) (hlen : t.length < n) : cstr (filled n t) = t := by
  obtain ⟨k, hk⟩ := Nat.exists_eq_add_of_lt hlen
  have hsplit : List.replicate (n - t.length) nul = nul :: List.replicate k nul := by
    rw [← List.replicate_succ]
    congr 1
    omega
  rw [filled, hsplit, cstr_append h]

/-- What is asked of printing `cpuset` into `n` characters: what fits is read back, and a buffer of
5 characters or more is not left and ends in a terminator. -/
structure PrintMeets (n : Nat) (cpuset : CpuSet) : Prop where
  readBack : (cpuText cpuset).length + 1 ≤ n → ∃ cpustr, cpusetToStr n cpuset = some cpustr
    ∧ ∃ ret, strToCpuset (cstr cpustr) (cstr cpustr).length = .ok (ret, cpuset)
  inBounds : 5 ≤ n → ∃ cpustr, cpusetToStr n cpuset = some cpustr ∧ cpustr.length = n
    ∧ nul ∈ cpustr

/-- What is cut short is not read back. -/
theorem not_readBack (hn : n < 2 ^ 32) (h : cpuset ≠ 0)
    (hlen : 2 ≤ n ∧ n < (cpuText cpuset).length + 3) {cpustr : List Char} {r : Nat × CpuSet}
    (hprint : cpusetToStr n cpuset = some cpustr)
    (hparse : strToCpuset (cstr cpustr) (cstr cpustr).length = .ok r) : False := by
  rw [cpusetToStr_eq hn h hlen.1, if_neg (by omega)] at hprint
  split_ifs at hprint with h4
  obtain rfl := Option.some.inj hprint
  have hnul : nul ∉ (cpuText cpuset ++ [',']).take (n - 4) ++ ['.', '.', '.'] := by
    intro hmem
    rcases List.mem_append.1 hmem with hmem | hmem
    · rcases List.mem_append.1 (List.mem_of_mem_take hmem) with hmem | hmem
      · exact nul_not_mem_cpuText hmem
      · revert hmem
        decide
    · revert hmem
      decide
  rw [← List.append_assoc, cstr_append hnul] at hparse
  exact strToCpuset_dot (by simp) hparse

/-- Printing does what is asked of it unless the text and its terminator fill the buffer, or leave
one character of it. -/
theorem cpusetToStr_meets_iff (hn : n < 2 ^ 32) (h : cpuset ≠ 0) : PrintMeets n cpuset
    ↔ n ≠ (cpuText cpuset).length + 1 ∧ n ≠ (cpuText cpuset).length + 2 := by
  have hpos : 1 ≤ (cpuText cpuset).length := by
    have hle : ((cpus cpuset).map (Nat.toDigits 10)).length ≤ (cpuText cpuset).length :=
      length_le_intercalate ',' fun t ht => by
        obtain ⟨j, -, rfl⟩ := List.mem_map.1 ht
        exact Nat.toDigits_ne_nil
    have hcpus := List.length_pos_iff.2 (cpus_ne_nil h)
    rw [List.length_map] at hle
    exact Nat.le_trans hcpus hle
  constructor
  · intro hmeets
    by_contra hbad
    obtain ⟨cpustr, hprint, ret, hparse⟩ := hmeets.readBack (by omega)
    exact not_readBack hn h (by omega) hprint hparse
  · rintro ⟨h1, h2⟩
    constructor
    · intro hfits
      refine ⟨_, (cpusetToStr_eq hn h (by omega)).trans (if_pos (by omega)),
        (cpuText cpuset).length, ?_⟩
      rw [cstr_filled nul_not_mem_cpuText (by omega)]
      exact strToCpuset_cpuText h
    · intro h5
      rw [cpusetToStr_eq hn h (by omega)]
      by_cases hfit : (cpuText cpuset).length + 3 ≤ n
      · refine ⟨_, if_pos hfit, filled_length (by omega), ?_⟩
        refine List.mem_append_right _ (List.mem_replicate.2 ⟨?_, rfl⟩)
        omega
      · refine ⟨_, (if_neg hfit).trans (if_pos (by omega)), ?_, by simp⟩
        simp only [List.length_append, List.length_take, List.length_cons, List.length_nil]
        omega

/-- Two characters are left after the text and its terminator. -/
theorem cpusetToStr_meets_eight : PrintMeets 8 0b1011#1024 :=
  (cpusetToStr_meets_iff (by decide) (by decide +kernel)).2 (by decide +kernel)

/-- CPUs 1 to 795 fill the buffer that rdtset prints into, and are cut short. -/
theorem cpusetToStr_cut : ¬ PrintMeets 3072 (BitVec.ofNat 1024 (2 ^ 796 - 2)) := by
  have hne : BitVec.ofNat 1024 (2 ^ 796 - 2) ≠ 0 := by decide +kernel
  have hlen : (cpuText (BitVec.ofNat 1024 (2 ^ 796 - 2))).length = 3071 := by decide +kernel
  intro hmeets
  obtain ⟨cpustr, hprint, ret, hparse⟩ := hmeets.readBack (by rw [hlen])
  exact not_readBack (by decide) hne (by rw [hlen]; decide) hprint hparse

end Print

end Pqos.Rdt
