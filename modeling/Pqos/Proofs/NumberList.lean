import Pqos.NumberList
import Pqos.Lib.Distinct
import Pqos.Lib.Numbers

/-!
# Lists of numbers

A list of numbers and ranges makes the table of its distinct values, as many as the table has room
for. The loop over a range counts in 64 bits and stops behind the range's end, which a range that
ends at the largest value does not have: the loop goes on from 0 until the table is full. So the
table is that of the list with 0, 1, … listed after such a range.
-/

namespace Pqos

open CText Distinct

/-! ## What a list says -/

/-- What may stand between two commas. -/
inductive NumItem
  | empty
  | one (n : Nat)
  | range (a b : Nat)
deriving DecidableEq, Repr

namespace NumItem

/-- A range is counted up whichever way it is written. -/
def values : NumItem → List Nat
  | empty => []
  | one n => [n]
  | range a b => List.range' (Nat.min a b) (Nat.max a b + 1 - Nat.min a b)

end NumItem

/-- A 64-bit number, decimal or hexadecimal. -/
def NumText (t : List Char) (n : Nat) : Prop :=
  (Digits 10 t n ∨ ∃ ds, (t = '0' :: 'x' :: ds ∨ t = '0' :: 'X' :: ds) ∧ Digits 16 ds n)
    ∧ n < 2 ^ 64

/-- An item's text, with its leading blanks. -/
inductive ItemText : NumItem → List Char → Prop
  | empty (blanks : List Char) (hblanks : ∀ c ∈ blanks, isspace c = true) : ItemText .empty blanks
  | one (blanks t : List Char) {n : Nat} (hblanks : ∀ c ∈ blanks, isspace c = true)
      (ht : NumText t n) : ItemText (.one n) (blanks ++ t)
  | range (blanks t u : List Char) {a b : Nat} (hblanks : ∀ c ∈ blanks, isspace c = true)
      (ht : NumText t a) (hu : NumText u b) : ItemText (.range a b) (blanks ++ (t ++ '-' :: u))

/-- The list of the items, of which there is at least one, separated by commas. -/
def ListText (items : List NumItem) (s : List Char) : Prop :=
  items ≠ [] ∧ ∃ texts, List.Forall₂ ItemText items texts ∧ s = [','].intercalate texts

/-- The values a list denotes. -/
def listed (items : List NumItem) : List Nat := items.flatMap NumItem.values

/-! ## Numbers -/

section Text

variable {t : List Char} {n : Nat}

/-- A digit is not the `x` of a prefix. -/
theorem toLower_ne_of_isDigit {c : Char} (h : isDigit 16 c = true) : c.toLower ≠ 'x' := by
  have hcodes : ∀ k < 128, isDigit 16 (Char.ofNat k) = true → (Char.ofNat k).toLower ≠ 'x' := by
    decide
  have hc := toNat_of_isDigit h
  rw [← Char.ofNat_toNat c] at h ⊢
  exact hcodes c.toNat (by omega) h

theorem numberOf_decimal (h : Digits 10 t n) (hn : n < 2 ^ 64) : numberOf t = .ok n := by
  have hread := (strtoull_digits (by decide) h stops_nil (by simp)).1
  rw [List.append_nil, clamp_of_lt hn] at hread
  have hhex : strcasecmp (t.take 2) ['0', 'x'] = false := by
    refine Bool.eq_false_iff.2 fun hcmp => ?_
    rw [strcasecmp, decide_eq_true_eq] at hcmp
    have hmem : 'x' ∈ (t.take 2).map Char.toLower := by
      rw [hcmp]
      decide
    obtain ⟨c, hc, hx⟩ := List.mem_map.1 hmem
    have hdigit := h.digit c (List.mem_of_mem_take hc)
    exact toLower_ne_of_isDigit (isDigit_mono (by decide) hdigit) hx
  unfold numberOf
  simp only [hhex, Bool.false_eq_true, if_false, hread]
  rw [if_pos ⟨h.ne_nil, trivial⟩]

theorem numberOf_hex {ds : List Char} (ht : t = '0' :: 'x' :: ds ∨ t = '0' :: 'X' :: ds)
    (h : Digits 16 ds n) (hn : n < 2 ^ 64) : numberOf t = .ok n := by
  have hzero : ds = ['0'] → skipHexPrefix (ds ++ []) = ds ++ [] := by
    rintro rfl
    decide
  have hread := (strtoull_digits (by decide) h stops_nil fun _ => hzero).1
  rw [List.append_nil, clamp_of_lt hn] at hread
  have hhex : strcasecmp (t.take 2) ['0', 'x'] = true ∧ t.drop 2 = ds := by
    rcases ht with rfl | rfl <;> exact ⟨rfl, rfl⟩
  unfold numberOf
  simp only [hhex.1, hhex.2, if_true, hread]
  rw [if_pos ⟨h.ne_nil, trivial⟩]

theorem NumText.numberOf (h : NumText t n) : numberOf t = .ok n := by
  obtain ⟨hten | ⟨ds, ht, hds⟩, hn⟩ := h
  · exact numberOf_decimal hten hn
  · exact numberOf_hex ht hds hn

/-- What a number is written with. -/
theorem NumText.mem (h : NumText t n) {c : Char} (hc : c ∈ t) :
    isDigit 16 c = true ∨ c = 'x' ∨ c = 'X' := by
  obtain ⟨hten | ⟨ds, ht, hds⟩, -⟩ := h
  · exact Or.inl (isDigit_mono (by decide) (hten.digit c hc))
  · rcases ht with rfl | rfl
    all_goals
      rcases List.mem_cons.1 hc with rfl | hc
      · exact Or.inl (by decide)
      rcases List.mem_cons.1 hc with rfl | hc
      · simp
      · exact Or.inl (hds.digit c hc)

theorem NumText.plain (h : NumText t n) {c : Char} (hc : c ∈ t) :
    isspace c = false ∧ c ∉ ['-', ',', '[', ']', ';'] := by
  rcases h.mem hc with hdigit | rfl | rfl
  · refine ⟨isspace_of_isDigit (Nat.le_refl 16) hdigit, fun hmem => ?_⟩
    have hno : ['-', ',', '[', ']', ';'].all (fun d => !isDigit 16 d) = true := by decide
    have hc := List.all_eq_true.1 hno c hmem
    rw [hdigit] at hc
    cases hc
  · decide
  · decide

theorem NumText.ne_nil (h : NumText t n) : t ≠ [] := by
  obtain ⟨hten | ⟨ds, rfl | rfl, -⟩, -⟩ := h
  · exact hten.ne_nil
  · simp
  · simp

/-- The leading blanks are passed. -/
theorem NumText.dropWhile (h : NumText t n) {blanks : List Char}
    (hblanks : ∀ c ∈ blanks, isspace c = true) (rest : List Char) :
    (blanks ++ (t ++ rest)).dropWhile isspace = t ++ rest := by
  rw [List.dropWhile_append_of_pos hblanks]
  obtain ⟨c, t, rfl⟩ := List.exists_cons_of_ne_nil h.ne_nil
  exact List.dropWhile_cons_of_neg (by simp [(h.plain List.mem_cons_self).1])

end Text

/-! ## The loop over a range -/

/-- The values of the first `k` turns. -/
def visited (n k : Nat) : List Nat := (List.range k).map fun i => (n + i) % 2 ^ 64

@[simp] theorem length_visited (n k : Nat) : (visited n k).length = k := by simp [visited]

theorem visited_succ (n k : Nat) :
    visited n (k + 1) = n % 2 ^ 64 :: visited ((n + 1) % 2 ^ 64) k := by
  unfold visited
  rw [List.range_succ_eq_map, List.map_cons, List.map_map]
  refine congrArg₂ List.cons rfl (List.map_congr_left fun i _ => ?_)
  simp only [Function.comp_apply]
  omega

theorem visited_add (n k m : Nat) :
    visited n (k + m) = visited n k ++ visited ((n + k) % 2 ^ 64) m := by
  unfold visited
  rw [List.range_add, List.map_append, List.map_map]
  refine congrArg _ (List.map_congr_left fun i _ => ?_)
  simp only [Function.comp_apply]
  omega

theorem visited_eq_range' {n k : Nat} (h : n + k ≤ 2 ^ 64) : visited n k = List.range' n k := by
  rw [visited, List.range'_eq_map_range]
  refine List.map_congr_left fun i hi => ?_
  rw [List.mem_range] at hi
  exact Nat.mod_eq_of_lt (by omega)

/-- The turns are at different values. -/
theorem nodup_visited {n k : Nat} (hk : k ≤ 2 ^ 64) : (visited n k).Nodup := by
  refine List.Nodup.map_on (fun i hi j hj h => ?_) List.nodup_range
  rw [List.mem_range] at hi hj
  omega

section Loop

variable {max last turns n : Nat} {l : List Nat}

theorem addValue_run {a : Nat} (h : l.eraseDups.length < max) :
    addValue max l.eraseDups a = .ok (l ++ [a]).eraseDups := by
  rw [eraseDups_concat, push, addValue]
  by_cases ha : a ∈ l.eraseDups
  · rw [if_pos ha, if_pos ha]
  · rw [if_neg ha, if_neg ha, if_pos h]

theorem append_visited (hn : n < 2 ^ 64) (k : Nat) :
    l ++ visited n (k + 1) = (l ++ [n]) ++ visited ((n + 1) % 2 ^ 64) k := by
  rw [visited_succ, Nat.mod_eq_of_lt hn, List.append_assoc]
  rfl

/-- One turn. -/
theorem addRange_turn (hn : n ≤ last) (hlen : l.eraseDups.length < max) :
    addRange max last (turns + 1) n l.eraseDups
      = if max ≤ (l ++ [n]).eraseDups.length then .ok ((l ++ [n]).eraseDups, true)
        else addRange max last turns ((n + 1) % 2 ^ 64) (l ++ [n]).eraseDups := by
  rw [addRange, if_neg (by omega), addValue_run hlen]
  rfl

/-- The turns fill the table. -/
theorem addRange_fills {k : Nat} (hn : n < 2 ^ 64) (hk : ∀ i < k, (n + i) % 2 ^ 64 ≤ last)
    (hlen : l.eraseDups.length < max) (hfull : max ≤ (l ++ visited n k).eraseDups.length)
    (hturns : k ≤ turns) :
    addRange max last turns n l.eraseDups
      = .ok ((l ++ visited n k).eraseDups.take max, true) := by
  induction k generalizing n l turns with
  | zero =>
    have hnil : visited n 0 = [] := rfl
    rw [hnil, List.append_nil] at hfull
    omega
  | succ k ih =>
    obtain ⟨turns, rfl⟩ : ∃ t, turns = t + 1 := ⟨turns - 1, by omega⟩
    have hhere := hk 0 (by omega)
    rw [Nat.add_zero, Nat.mod_eq_of_lt hn] at hhere
    rw [append_visited hn] at hfull ⊢
    rw [addRange_turn hhere hlen]
    split_ifs with hmax
    · -- the value that fills the table
      have hlast : (l ++ [n]).eraseDups.length ≤ max := by
        have := length_push_le l.eraseDups n
        rw [← eraseDups_concat] at this
        omega
      rw [take_eraseDups_append hmax, List.take_of_length_le hlast]
    · refine ih (Nat.mod_lt _ (by omega)) (fun i hi => ?_) (by omega) hfull (by omega)
      have := hk (i + 1) (by omega)
      omega

/-- The turns reach the range's end. -/
theorem addRange_ends {k : Nat} (hn : n < 2 ^ 64) (hk : ∀ i < k, (n + i) % 2 ^ 64 ≤ last)
    (hend : last < (n + k) % 2 ^ 64) (hroom : (l ++ visited n k).eraseDups.length < max)
    (hturns : k < turns) :
    addRange max last turns n l.eraseDups = .ok ((l ++ visited n k).eraseDups, false) := by
  induction k generalizing n l turns with
  | zero =>
    obtain ⟨turns, rfl⟩ : ∃ t, turns = t + 1 := ⟨turns - 1, by omega⟩
    have hnil : visited n 0 = [] := rfl
    rw [Nat.add_zero, Nat.mod_eq_of_lt hn] at hend
    rw [addRange, if_pos hend, hnil, List.append_nil]
  | succ k ih =>
    obtain ⟨turns, rfl⟩ : ∃ t, turns = t + 1 := ⟨turns - 1, by omega⟩
    have hhere := hk 0 (by omega)
    rw [Nat.add_zero, Nat.mod_eq_of_lt hn] at hhere
    rw [append_visited hn] at hroom ⊢
    have hmax := length_eraseDups_append_le (l ++ [n]) (visited ((n + 1) % 2 ^ 64) k)
    have hlen := length_eraseDups_append_le l [n]
    rw [addRange_turn hhere (by omega), if_neg (by omega)]
    refine ih (Nat.mod_lt _ (by omega)) (fun i hi => ?_) ?_ hroom (by omega)
    · have := hk (i + 1) (by omega)
      omega
    · have hnext : ((n + 1) % 2 ^ 64 + k) % 2 ^ 64 = (n + (k + 1)) % 2 ^ 64 := by omega
      omega

/-- The values the loop is at: those of the range, and behind the largest value those from 0 on. -/
def walk (max n last : Nat) : List Nat :=
  List.range' n (last + 1 - n) ++ if last = 2 ^ 64 - 1 then List.range max else []

theorem walk_eq_visited (hn : n ≤ last) (hlast : last < 2 ^ 64) (hmax : max ≤ 2 ^ 64) :
    walk max n last = visited n (walk max n last).length := by
  have hrange : visited n (last + 1 - n) = List.range' n (last + 1 - n) :=
    visited_eq_range' (by omega)
  unfold walk
  split_ifs with h
  · have hzero : (n + (last + 1 - n)) % 2 ^ 64 = 0 := by omega
    rw [List.length_append, List.length_range', List.length_range, visited_add, hrange, hzero,
      visited_eq_range' (by omega), List.range_eq_range']
  · rw [List.append_nil, List.length_range', hrange]

/-- Turns enough are at values enough. -/
theorem le_length_visited {k : Nat} (hmax : max ≤ 2 ^ 64) (hk : max ≤ k) :
    max ≤ (l ++ visited n k).eraseDups.length := by
  have hle := length_le (l := l ++ visited n k) (nodup_visited (n := n) hmax) fun a ha => by
    obtain ⟨i, hi, rfl⟩ := List.mem_map.1 ha
    rw [List.mem_range] at hi
    exact List.mem_append_right _ (List.mem_map.2 ⟨i, List.mem_range.2 (by omega), rfl⟩)
  rwa [length_visited] at hle

/-- The loop over a range stores the values it is at until the table is full. -/
theorem addRange_run (hn : n ≤ last) (hlast : last < 2 ^ 64) (hmax : max < 2 ^ 64)
    (hlen : l.eraseDups.length < max) :
    addRange max last (max + 1) n l.eraseDups
      = .ok ((l ++ walk max n last).eraseDups.take max,
          decide (max ≤ (l ++ walk max n last).eraseDups.length)) := by
  have hwalk := walk_eq_visited hn hlast (Nat.le_of_lt hmax)
  generalize hK : (walk max n last).length = k at hwalk
  have hlength : k = last + 1 - n + if last = 2 ^ 64 - 1 then max else 0 := by
    rw [← hK, walk, List.length_append, List.length_range']
    split_ifs <;> simp
  have hat : ∀ i < k, (n + i) % 2 ^ 64 ≤ last := by
    intro i hi
    split_ifs at hlength <;> omega
  rw [hwalk]
  by_cases hfull : max ≤ (l ++ visited n k).eraseDups.length
  · rw [decide_eq_true hfull]
    by_cases hk : k ≤ max
    · exact addRange_fills (by omega) hat hlen hfull (by omega)
    · -- the first `max` turns are at values enough
      have hsplit : l ++ visited n k
          = (l ++ visited n max) ++ visited ((n + max) % 2 ^ 64) (k - max) := by
        rw [List.append_assoc, ← visited_add]
        congr 2
        omega
      have henough : max ≤ (l ++ visited n max).eraseDups.length :=
        le_length_visited (Nat.le_of_lt hmax) (Nat.le_refl max)
      rw [addRange_fills (by omega) (fun i hi => hat i (by omega)) hlen henough (by omega), hsplit,
        take_eraseDups_append henough]
  · rw [decide_eq_false hfull]
    have hk : k < max :=
      Nat.not_le.1 fun hk => hfull (le_length_visited (Nat.le_of_lt hmax) hk)
    have hlt : last ≠ 2 ^ 64 - 1 := by
      rintro rfl
      rw [if_pos rfl] at hlength
      omega
    rw [if_neg hlt] at hlength
    rw [addRange_ends (by omega) hat (by omega) (by omega) (by omega),
      List.take_of_length_le (by omega)]

end Loop

/-! ## Tokens -/

/-- The item that the code takes a token for. -/
def readItem (token : List Char) : Option NumItem :=
  let token := token.dropWhile isspace
  if token = [] then some .empty
  else
    match strchr '-' token with
    | some (first, second) =>
      match numberOf first, numberOf second with
      | .ok a, .ok b => some (.range a b)
      | _, _ => none
    | none =>
      match numberOf token with
      | .ok n => some (.one n)
      | .error _ => none

/-- The items of a list, without the tokens that cannot be read. -/
def namedItems (s : List Char) : List NumItem := (s.splitOn ',').filterMap readItem

/-- The values that an item makes the code try to store. -/
def NumItem.walked (max : Nat) : NumItem → List Nat
  | empty => []
  | one n => [n]
  | range a b => walk max (Nat.min a b) (Nat.max a b)

section Tokens

variable {max : Nat} {l : List Nat} {items : List NumItem} {texts : List (List Char)}
  {item : NumItem} {s t : List Char}

theorem numberOf_lt {n : Nat} (h : numberOf t = .ok n) : n < 2 ^ 64 := by
  unfold numberOf at h
  simp only at h
  split_ifs at h
  all_goals
    rw [← Except.ok.inj h]
    exact strtoull_lt _ _

theorem numberOf_error {e : Halt} (h : numberOf t = .error e) : e = .exit := by
  unfold numberOf at h
  simp only at h
  split_ifs at h
  all_goals exact (Except.error.inj h).symm

/-- A token that can be read adds the values of its item until the table is full. -/
theorem addToken_read (h : readItem t = some item) (hmax : max < 2 ^ 64)
    (hlen : l.eraseDups.length < max) :
    addToken max t l.eraseDups
      = .ok ((l ++ item.walked max).eraseDups.take max,
          decide (max ≤ (l ++ item.walked max).eraseDups.length)) := by
  unfold readItem at h
  unfold addToken
  simp only at h ⊢
  split_ifs at h ⊢ with hnil
  · obtain rfl := Option.some.inj h
    rw [NumItem.walked, List.append_nil, List.take_of_length_le (by omega),
      decide_eq_false (by omega)]
  · rcases hdash : strchr '-' (t.dropWhile isspace) with _ | ⟨first, second⟩ <;>
      rw [hdash] at h <;> simp only at h ⊢
    · rcases hn : numberOf (t.dropWhile isspace) with e | n <;> rw [hn] at h
      · cases h
      obtain rfl := Option.some.inj h
      have hlast : (l ++ [n]).eraseDups.length ≤ max := by
        have := length_push_le l.eraseDups n
        rw [← eraseDups_concat] at this
        omega
      simp only [bind, Except.bind, addValue_run hlen, NumItem.walked,
        List.take_of_length_le hlast]
      rfl
    · rcases ha : numberOf first with e | a <;> rw [ha] at h
      · cases h
      rcases hb : numberOf second with e | b <;> rw [hb] at h
      · cases h
      obtain rfl := Option.some.inj h
      exact addRange_run (Nat.le_trans (Nat.min_le_left a b) (Nat.le_max_left a b))
        (Nat.max_lt.2 ⟨numberOf_lt ha, numberOf_lt hb⟩) hmax hlen

/-- At one that cannot be read, the tool exits. -/
theorem addToken_unread (h : readItem t = none) (tab : List Nat) :
    addToken max t tab = .error .exit := by
  unfold readItem at h
  unfold addToken
  simp only at h ⊢
  split_ifs at h ⊢ with hnil
  rcases hdash : strchr '-' (t.dropWhile isspace) with _ | ⟨first, second⟩ <;>
    rw [hdash] at h <;> simp only at h ⊢
  · rcases hn : numberOf (t.dropWhile isspace) with e | n <;> rw [hn] at h
    · rw [numberOf_error hn]
      rfl
    · cases h
  · rcases ha : numberOf first with e | a <;> rw [ha] at h
    · rw [numberOf_error ha]
      rfl
    rcases hb : numberOf second with e | b <;> rw [hb] at h
    · rw [numberOf_error hb]
      rfl
    · cases h

/-- The tokens up to the one that fills the table are stored, or one of them cannot be read. -/
theorem addTokens_cases (texts : List (List Char)) (hmax : max < 2 ^ 64)
    (hlen : l.eraseDups.length < max) :
    addTokens max texts l.eraseDups
        = .ok ((l ++ (texts.filterMap readItem).flatMap (NumItem.walked max)).eraseDups.take max)
      ∨ addTokens max texts l.eraseDups = .error .exit ∧ ∃ t ∈ texts, readItem t = none := by
  induction texts generalizing l with
  | nil =>
    left
    rw [addTokens, List.filterMap_nil, List.flatMap_nil, List.append_nil,
      List.take_of_length_le (by omega)]
  | cons t texts ih =>
    rcases hread : readItem t with _ | item
    · right
      rw [addTokens, addToken_unread hread]
      exact ⟨rfl, t, List.mem_cons_self, hread⟩
    · rw [addTokens, addToken_read hread hmax hlen, List.filterMap_cons_some hread,
        List.flatMap_cons, ← List.append_assoc]
      simp only [bind, Except.bind, decide_eq_true_eq]
      split_ifs with hfull
      · left
        rw [take_eraseDups_append hfull]
        rfl
      · rw [List.take_of_length_le (by omega)]
        refine (ih (by omega)).imp_right ?_
        rintro ⟨herr, u, hu, hnone⟩
        exact ⟨herr, u, List.mem_cons_of_mem _ hu, hnone⟩

/-- No token is as good as one of nothing. -/
theorem addTokens_filter (max : Nat) (texts : List (List Char)) (tab : List Nat) :
    addTokens max (texts.filter (· ≠ [])) tab = addTokens max texts tab := by
  induction texts generalizing tab with
  | nil => rfl
  | cons t texts ih =>
    by_cases ht : t = []
    · subst ht
      have hnil : addToken max [] tab = .ok (tab, false) := rfl
      rw [List.filter_cons_of_neg (by simp), ih, addTokens, hnil]
      rfl
    · rw [List.filter_cons_of_pos (by simpa using ht), addTokens, addTokens]
      refine congrArg _ (funext fun r => ?_)
      obtain ⟨tab', full⟩ := r
      cases full
      · exact ih tab'
      · rfl

/-- The table of a list, unless a token cannot be read. -/
theorem listToTab_cases (s : List Char) (hmax : max < 2 ^ 64) :
    listToTab s max = .ok (((namedItems s).flatMap (NumItem.walked max)).eraseDups.take max)
      ∨ listToTab s max = .error .exit ∧ ∃ t ∈ s.splitOn ',', readItem t = none := by
  rcases Nat.eq_zero_or_pos max with rfl | hpos
  · exact Or.inl rfl
  rw [listToTab, if_neg (by omega), strtok, addTokens_filter]
  exact addTokens_cases (l := []) _ hmax hpos

end Tokens

/-! ## Texts -/

section Texts

variable {items : List NumItem} {texts : List (List Char)} {item : NumItem} {s t : List Char}

theorem ItemText.readItem (h : ItemText item t) : readItem t = some item := by
  cases h with
  | empty _ hblanks =>
    have hdrop : t.dropWhile isspace = [] := List.dropWhile_eq_nil_iff.2 hblanks
    rw [Pqos.readItem, hdrop, if_pos rfl]
  | @one blanks t n hblanks ht =>
    have hdrop := ht.dropWhile hblanks []
    have hdash : strchr '-' t = none := strchr_eq_none fun hc => (ht.plain hc).2 (by simp)
    rw [List.append_nil] at hdrop
    simp only [Pqos.readItem, hdrop, if_neg ht.ne_nil, hdash, ht.numberOf]
  | @range blanks t u a b hblanks ht hu =>
    have hdrop := ht.dropWhile hblanks ('-' :: u)
    have hdash : strchr '-' (t ++ '-' :: u) = some (t, u) :=
      strchr_append fun hc => (ht.plain hc).2 (by simp)
    have hne : t ++ '-' :: u ≠ [] := by simp
    simp only [Pqos.readItem, hdrop, if_neg hne, hdash, ht.numberOf, hu.numberOf]

/-- An item is written without a comma or a bracket. -/
theorem ItemText.plain (h : ItemText item t) {c : Char} (hc : c ∈ t) :
    c ∉ [',', '[', ']', ';'] := by
  have hspace : ∀ d, isspace d = true → d ∉ [',', '[', ']', ';'] := by
    intro d hd hmem
    have hno : [',', '[', ']', ';'].all (fun e => !isspace e) = true := by decide
    have he := List.all_eq_true.1 hno d hmem
    rw [hd] at he
    cases he
  have hnum : ∀ {u : List Char} {n : Nat}, NumText u n → c ∈ u → c ∉ [',', '[', ']', ';'] :=
    fun hu hcu hmem => (hu.plain hcu).2 (List.mem_cons_of_mem _ hmem)
  cases h with
  | empty _ hblanks => exact hspace c (hblanks c hc)
  | one _ _ hblanks ht =>
    rcases List.mem_append.1 hc with hc | hc
    · exact hspace c (hblanks c hc)
    · exact hnum ht hc
  | range _ _ _ hblanks ht hu =>
    rcases List.mem_append.1 hc with hc | hc
    · exact hspace c (hblanks c hc)
    rcases List.mem_append.1 hc with hc | hc
    · exact hnum ht hc
    rcases List.mem_cons.1 hc with rfl | hc
    · decide
    · exact hnum hu hc

theorem plain_of_mem (h : List.Forall₂ ItemText items texts) (ht : t ∈ texts) {c : Char}
    (hc : c ∈ t) : c ∉ [',', '[', ']', ';'] := by
  induction h with
  | nil => cases ht
  | cons hitem _ ih =>
    rcases List.mem_cons.1 ht with rfl | ht
    · exact hitem.plain hc
    · exact ih ht

/-- The tokens of a list are the texts of its items. -/
theorem ListText.splitOn (h : ListText items s) :
    (s.splitOn ',').map Pqos.readItem = items.map some := by
  obtain ⟨hne, texts, htexts, rfl⟩ := h
  have hcomma : ∀ t ∈ texts, ',' ∉ t := fun t ht hc => plain_of_mem htexts ht hc (by simp)
  have hne' : texts ≠ [] := by
    rintro rfl
    cases htexts
    exact hne rfl
  rw [List.splitOn_intercalate ',' hcomma hne']
  clear hne hne' hcomma
  induction htexts with
  | nil => rfl
  | cons hitem _ ih => rw [List.map_cons, List.map_cons, hitem.readItem, ih]

theorem ListText.namedItems (h : ListText items s) : namedItems s = items := by
  have hid : (s.splitOn ',').filterMap Pqos.readItem
      = ((s.splitOn ',').map Pqos.readItem).filterMap id := by
    rw [List.filterMap_map]
    rfl
  rw [Pqos.namedItems, hid, h.splitOn]
  simp

/-- The table of a list whose items are well written. -/
theorem listToTab_run {max : Nat} (h : ListText items s) (hmax : max < 2 ^ 64) :
    listToTab s max = .ok ((items.flatMap (NumItem.walked max)).eraseDups.take max) := by
  rcases listToTab_cases s hmax with hok | ⟨-, t, ht, hnone⟩
  · rwa [h.namedItems] at hok
  · have hmem : none ∈ items.map some := by
      rw [← h.splitOn, ← hnone]
      exact List.mem_map_of_mem ht
    simp at hmem

end Texts

/-! ## What the parser is for -/

/-- The table is that of the first distinct values, as many as there is room for, and both tools
have the same. -/
def StoresFirst (items : List NumItem) (s : List Char) (max : Nat) : Prop :=
  (∃ tab, Main.strlisttotab s max = .ok tab
    ∧ tab.length = Nat.min max (listed items).eraseDups.length
    ∧ tab = (listed items).eraseDups.take tab.length)
  ∧ Common.strlisttotab s max = Main.strlisttotab s max

/-- A range that ends at the largest value. -/
def NumItem.endsLast : NumItem → Bool
  | range a b => Nat.max a b = 2 ^ 64 - 1
  | _ => false

/-- What a list adds to the values that were seen, as long as there is room. -/
def fresh (room : Nat) (seen l : List Nat) : List Nat := (l.removeAll seen).eraseDups.take room

/-- Behind the first range that ends at the largest value, the list adds what counting from 0
does, as long as there is room. -/
def CountsOn (items : List NumItem) (max : Nat) : Prop :=
  ∀ pre item post, items = pre ++ item :: post → (∀ i ∈ pre, i.endsLast = false) →
    item.endsLast = true →
    let seen := listed (pre ++ [item])
    let room := max - seen.eraseDups.length
    fresh room seen (listed post) = fresh room seen (List.range max)

section StoresFirst

variable {max : Nat} {items pre post : List NumItem} {item : NumItem} {s : List Char}

theorem listed_append (pre post : List NumItem) :
    listed (pre ++ post) = listed pre ++ listed post := List.flatMap_append

theorem walked_eq (max : Nat) (item : NumItem) :
    item.walked max = item.values ++ if item.endsLast = true then List.range max else [] := by
  cases item with
  | empty => rfl
  | one n => rfl
  | range a b => simp [NumItem.walked, walk, NumItem.values, NumItem.endsLast]

theorem walked_eq_listed (h : ∀ i ∈ items, i.endsLast = false) :
    items.flatMap (NumItem.walked max) = listed items := by
  refine List.flatMap_congr fun i hi => ?_
  rw [walked_eq, h i hi, if_neg (by simp), List.append_nil]

theorem take_eraseDups_fresh (max : Nat) (seen l : List Nat) :
    (seen ++ l).eraseDups.take max
      = seen.eraseDups.take max ++ fresh (max - seen.eraseDups.length) seen l := by
  rw [List.eraseDups_append, List.take_append, fresh]

/-- The first range that ends at the largest value fills the table. -/
theorem take_walked (hpre : ∀ i ∈ pre, i.endsLast = false) (hitem : item.endsLast = true) :
    ((pre ++ item :: post).flatMap (NumItem.walked max)).eraseDups.take max
      = (listed (pre ++ [item]) ++ List.range max).eraseDups.take max := by
  have hlist : (pre ++ item :: post).flatMap (NumItem.walked max)
      = (listed (pre ++ [item]) ++ List.range max) ++ post.flatMap (NumItem.walked max) := by
    rw [List.flatMap_append, List.flatMap_cons, walked_eq_listed hpre, walked_eq, if_pos hitem,
      listed_append]
    simp [listed]
  have hfull : max ≤ (listed (pre ++ [item]) ++ List.range max).eraseDups.length := by
    have := length_le (l := listed (pre ++ [item]) ++ List.range max) (List.nodup_range (n := max))
      fun a ha => List.mem_append_right _ ha
    rwa [List.length_range] at this
  rw [hlist, take_eraseDups_append hfull]

/-- The code's table is the list's where the list counts on. -/
theorem take_walked_iff : (items.flatMap (NumItem.walked max)).eraseDups.take max
    = (listed items).eraseDups.take max ↔ CountsOn items max := by
  have hsplit : ∀ pre item post, items = pre ++ item :: post → (∀ i ∈ pre, i.endsLast = false) →
      item.endsLast = true →
      ((items.flatMap (NumItem.walked max)).eraseDups.take max = (listed items).eraseDups.take max
        ↔ fresh (max - (listed (pre ++ [item])).eraseDups.length) (listed (pre ++ [item]))
            (listed post)
          = fresh (max - (listed (pre ++ [item])).eraseDups.length) (listed (pre ++ [item]))
            (List.range max)) := by
    rintro pre item post rfl hpre hitem
    have hlist : listed (pre ++ item :: post) = listed (pre ++ [item]) ++ listed post := by
      rw [← listed_append, List.append_assoc]
      rfl
    rw [take_walked hpre hitem, hlist, take_eraseDups_fresh, take_eraseDups_fresh,
      List.append_cancel_left_eq]
    exact eq_comm
  constructor
  · intro h pre item post hitems hpre hitem
    exact (hsplit pre item post hitems hpre hitem).1 h
  · intro h
    rcases hfind : items.find? NumItem.endsLast with _ | item
    · rw [walked_eq_listed fun i hi => by simpa using List.find?_eq_none.1 hfind i hi]
    · obtain ⟨hitem, pre, post, hitems, hpre⟩ := List.find?_eq_some_iff_append.1 hfind
      have hpre' : ∀ i ∈ pre, i.endsLast = false := fun i hi => by simpa using hpre i hi
      exact (hsplit pre item post hitems hpre' hitem).2 (h pre item post hitems hpre' hitem)

theorem storesFirst_iff_take (hmax : max < 2 ^ 32) (h : ListText items s) :
    StoresFirst items s max ↔ (items.flatMap (NumItem.walked max)).eraseDups.take max
      = (listed items).eraseDups.take max := by
  have hrun := listToTab_run h (Nat.lt_trans hmax (by decide : 2 ^ 32 < 2 ^ 64))
  unfold StoresFirst Main.strlisttotab Common.strlisttotab
  rw [hrun]
  constructor
  · rintro ⟨⟨tab, htab, hlen, hfirst⟩, -⟩
    rw [Except.ok.inj htab, hfirst, hlen, List.take_eq_take_iff]
    exact Nat.min_assoc .. |>.trans (by rw [Nat.min_self])
  · intro heq
    refine ⟨⟨_, rfl, ?_, ?_⟩, rfl⟩
    · rw [heq, List.length_take]
    · rw [heq, List.length_take, List.take_eq_take_iff, Nat.min_assoc, Nat.min_self]

/-- The parser stores the first distinct values of a list exactly if behind a range that ends at the
largest value, the list counts on from 0. -/
theorem strlisttotab_storesFirst_iff (hmax : max < 2 ^ 32) (h : ListText items s) :
    StoresFirst items s max ↔ CountsOn items max :=
  (storesFirst_iff_take hmax h).trans take_walked_iff

end StoresFirst

/-- A number's text, checked by computation. -/
theorem numText_of_decimal {t : List Char} {n : Nat} (hne : t ≠ [])
    (hdigit : t.all (isDigit 10) = true) (hvalue : ofDigits 10 t = n) (hn : n < 2 ^ 64) :
    NumText t n :=
  ⟨Or.inl ⟨hne, List.all_eq_true.1 hdigit, hvalue⟩, hn⟩

/-- A list that does not reach the largest value has nothing to count on from. -/
theorem strlisttotab_storesFirst_overlap :
    StoresFirst [.range 3 1, .one 2, .range 2 5] "3-1,2, 2-5".toList 4 := by
  have hcounts : CountsOn [.range 3 1, .one 2, .range 2 5] 4 := by
    intro pre item post hitems _ hlast
    have hnone : ∀ i ∈ [NumItem.range 3 1, .one 2, .range 2 5], i.endsLast = false := by decide
    rw [hnone item (hitems ▸ List.mem_append_right _ List.mem_cons_self)] at hlast
    cases hlast
  refine (strlisttotab_storesFirst_iff (by decide)
    ⟨by decide, ["3-1".toList, "2".toList, " 2-5".toList], ?_, by decide⟩).2 hcounts
  refine .cons (.range [] ['3'] ['1'] (by simp) ?_ ?_)
    (.cons (.one [] _ (by simp) ?_)
      (.cons (.range [' '] ['2'] ['5'] (List.all_eq_true.1 (by decide)) ?_ ?_) .nil))
  all_goals exact numText_of_decimal (by decide) (by decide) (by decide) (by decide)

/-- A range that ends at the largest value, and has two. -/
def lastRange : List NumItem := [.range (2 ^ 64 - 2) (2 ^ 64 - 1)]

theorem lastRange_text :
    ListText lastRange "18446744073709551614-18446744073709551615".toList := by
  refine ⟨by decide, ["18446744073709551614-18446744073709551615".toList], .cons ?_ .nil,
    by decide⟩
  refine .range [] "18446744073709551614".toList "18446744073709551615".toList (by simp) ?_ ?_
  all_goals exact numText_of_decimal (by decide) (by decide) (by decide) (by decide)

/-- The loop goes on behind the largest value: 0 and 1 are stored too. -/
theorem strlisttotab_last :
    ¬ ∀ items s max, 0 < max → max < 2 ^ 32 → ListText items s → StoresFirst items s max := by
  intro h
  have hstores := h lastRange _ 4 (by decide) (by decide) lastRange_text
  rw [storesFirst_iff_take (by decide) lastRange_text] at hstores
  revert hstores
  decide

end Pqos
