import Mathlib.Algebra.Group.Int.Defs
import Pqos.Lib.CText

/-!
# Numbers at the head of a text

What `strtoull` makes of a text that starts with digits, and when it sets `errno`. A number is a
string of digits, and a hexadecimal one may have its prefix; each is read up to the first character
that cannot belong to it. A text that is a number and nothing else may have a sign, too.
-/

namespace CText

def isblank (c : Char) : Bool := c = ' ' ∨ c = '\t'

/-- The digits that `strtoull` reads. -/
def strtoullDigits (base : Nat) (s : List Char) : List Char :=
  let t := s.dropWhile isspace
  let t := if t.head? = some '-' ∨ t.head? = some '+' then t.tail else t
  let t := if base = 16 then skipHexPrefix t else t
  t.takeWhile (isDigit base)

/-- Whether `strtoull` sets `errno`: the number is too large. -/
def erange (base : Nat) (s : List Char) : Bool := 2 ^ 64 ≤ ofDigits base (strtoullDigits base s)

/-- The largest number instead of one too large. -/
def clamp (n : Nat) : Nat := if 2 ^ 64 ≤ n then 2 ^ 64 - 1 else n

theorem clamp_of_lt {n : Nat} (h : n < 2 ^ 64) : clamp n = n := if_neg (Nat.not_le.2 h)

theorem strtoull_lt (base : Nat) (s : List Char) : (strtoull base s).1 < 2 ^ 64 := by
  unfold strtoull
  dsimp only
  split_ifs <;> dsimp only <;> omega

/-- Where `strtoull` ends is a suffix of its text. -/
theorem strtoull_suffix (base : Nat) (s : List Char) : (strtoull base s).2 <:+ s := by
  have hite : ∀ {p : Prop} [Decidable p] {t u v : List Char}, t <:+ v → u <:+ v →
      (if p then t else u) <:+ v := by
    intro p _ t u v ht hu
    split_ifs
    · exact ht
    · exact hu
  have hskip : ∀ t : List Char, skipHexPrefix t <:+ t := fun t =>
    hite (List.drop_suffix 2 t) List.suffix_rfl
  unfold strtoull
  dsimp only
  rw [apply_ite Prod.snd]
  refine hite List.suffix_rfl ((List.dropWhile_suffix _).trans ?_)
  refine List.IsSuffix.trans (hite (hskip _) List.suffix_rfl) ?_
  exact (hite (List.tail_suffix _) List.suffix_rfl).trans (List.dropWhile_suffix _)

/-! ## Digits -/

section Char

variable {c : Char} {b : Nat}

theorem isDigit_mono {b' : Nat} (hb : b ≤ b') (h : isDigit b c = true) : isDigit b' c = true := by
  unfold isDigit at *
  simp only [decide_eq_true_eq] at *
  omega

/-- The codes of the hexadecimal digits. -/
theorem toNat_of_isDigit (h : isDigit 16 c = true) : (48 ≤ c.toNat ∧ c.toNat ≤ 57)
    ∨ (65 ≤ c.toNat ∧ c.toNat ≤ 70) ∨ (97 ≤ c.toNat ∧ c.toNat ≤ 102) := by
  unfold isDigit digitVal at h
  simp only [Char.le_def, UInt32.le_iff_toNat_le, decide_eq_true_eq] at h
  have h0 : ('0' : Char).val.toNat = 48 ∧ ('9' : Char).val.toNat = 57 := by decide
  have ha : ('a' : Char).val.toNat = 97 ∧ ('z' : Char).val.toNat = 122 := by decide
  have hA : ('A' : Char).val.toNat = 65 ∧ ('Z' : Char).val.toNat = 90 := by decide
  have hc : c.val.toNat = c.toNat := rfl
  rw [h0.1, h0.2, ha.1, ha.2, hA.1, hA.2, hc] at h
  split_ifs at h <;> omega

/-- A character that is no digit in any base. -/
theorem ne_of_isDigit {a : Char} (hb : b ≤ 16) (h : isDigit b c = true)
    (ha : isDigit 16 a = false) : c ≠ a := by
  rintro rfl
  rw [isDigit_mono hb h] at ha
  cases ha

theorem isspace_of_isDigit (hb : b ≤ 16) (h : isDigit b c = true) : isspace c = false := by
  have hcode := toNat_of_isDigit (isDigit_mono hb h)
  have hblank := ne_of_isDigit (a := ' ') hb h (by decide)
  unfold isspace
  simp only [hblank, false_or, decide_eq_false_iff_not]
  omega

theorem isblank_of_isDigit (hb : b ≤ 16) (h : isDigit b c = true) : isblank c = false := by
  unfold isblank
  simp [ne_of_isDigit (a := ' ') hb h (by decide), ne_of_isDigit (a := '\t') hb h (by decide)]

end Char

/-- A string of digits that spells `n`. -/
structure Digits (b : Nat) (t : List Char) (n : Nat) : Prop where
  ne_nil : t ≠ []
  digit : ∀ c ∈ t, isDigit b c = true
  value : ofDigits b t = n

theorem digits_toDigits (n : Nat) : Digits 10 (Nat.toDigits 10 n) n := by
  refine ⟨Nat.toDigits_ne_nil, fun c hc => ?_, ofDigits_toDigits (by decide) (by decide)⟩
  obtain ⟨d, hd, rfl⟩ := mem_toDigits (by decide) hc
  rw [isDigit, digitVal_digitChar d (by omega)]
  exact decide_eq_true hd

/-- What follows cannot belong to a number in base `b`. -/
def Stops (b : Nat) (rest : List Char) : Prop := ∀ c, rest.head? = some c → isDigit b c = false

theorem stops_nil {b : Nat} : Stops b [] := by
  intro c hc
  cases hc

theorem stops_cons {b : Nat} {c : Char} {rest : List Char} (h : isDigit b c = false) :
    Stops b (c :: rest) := by
  intro a ha
  rw [List.head?_cons, Option.some.injEq] at ha
  rwa [← ha]

/-- What is left after dropping starts with what is not dropped. -/
theorem head_dropWhile {p : Char → Bool} {s : List Char} {c : Char}
    (h : (s.dropWhile p).head? = some c) : p c = false := by
  have hne : s.dropWhile p ≠ [] := by
    intro hnil
    rw [hnil] at h
    cases h
  have hhead := List.head_dropWhile_not p hne
  rw [List.head?_eq_some_head hne, Option.some.injEq] at h
  rwa [h] at hhead

theorem stops_dropWhile {b : Nat} {s : List Char} : Stops b (s.dropWhile (isDigit b)) :=
  fun _ hc => head_dropWhile hc

section Head

variable {b n : Nat} {t rest : List Char}

theorem Digits.head (h : Digits b t n) : ∃ c tl, t = c :: tl ∧ isDigit b c = true := by
  obtain ⟨c, tl, rfl⟩ := List.exists_cons_of_ne_nil h.ne_nil
  exact ⟨c, tl, rfl, h.digit c List.mem_cons_self⟩

theorem Digits.span (h : Digits b t n) (hstop : Stops b rest) :
    (t ++ rest).takeWhile (isDigit b) = t ∧ (t ++ rest).dropWhile (isDigit b) = rest :=
  takeWhile_append_stop h.digit hstop

/-- The digits a text starts with. -/
theorem digits_takeWhile {s : List Char} (h : s.head?.any (isDigit b) = true) :
    Digits b (s.takeWhile (isDigit b)) (ofDigits b (s.takeWhile (isDigit b))) := by
  refine ⟨?_, fun c hc => (List.mem_takeWhile_imp hc), rfl⟩
  rcases s with _ | ⟨c, s⟩
  · cases h
  · rw [List.head?_cons, Option.any_some] at h
    rw [List.takeWhile_cons_of_pos h]
    exact List.cons_ne_nil _ _

/-- `strtoull` on a text whose digits start at its head, or after a prefix there. -/
theorem strtoull_of_span {s : List Char} {c : Char} (hb : b ≤ 16) (hhead : s.head? = some c)
    (hc : isDigit b c = true) (h : Digits b t n) (hstop : Stops b rest)
    (hskip : (if b = 16 then skipHexPrefix s else s) = t ++ rest) :
    strtoull b s = (clamp n, rest) ∧ erange b s = decide (2 ^ 64 ≤ n) := by
  have hspace : s.dropWhile isspace = s := by
    rcases s with _ | ⟨a, s⟩
    · rfl
    · obtain rfl : a = c := Option.some.inj hhead
      exact List.dropWhile_cons_of_neg (by simp [isspace_of_isDigit hb hc])
  have hminus : s.head? ≠ some '-' := by
    rw [hhead, Ne, Option.some.injEq]
    exact ne_of_isDigit hb hc (by decide)
  have hplus : s.head? ≠ some '+' := by
    rw [hhead, Ne, Option.some.injEq]
    exact ne_of_isDigit hb hc (by decide)
  have hspan := h.span hstop
  constructor
  · unfold strtoull
    simp only [hspace, hminus, hplus, or_self, if_false, hskip, hspan.1, hspan.2, h.ne_nil, h.value]
    rfl
  · unfold erange strtoullDigits
    simp only [hspace, hminus, hplus, or_self, if_false, hskip, hspan.1, h.value]

/-- The prefix of a number is passed only where one is. -/
theorem skipHexPrefix_append (h : Digits 16 t n)
    (hzero : t = ['0'] → skipHexPrefix (t ++ rest) = t ++ rest) :
    skipHexPrefix (t ++ rest) = t ++ rest := by
  by_cases ht : t = ['0']
  · exact hzero ht
  obtain ⟨c, tl, rfl, hc⟩ := h.head
  unfold skipHexPrefix
  refine if_neg ?_
  rintro ⟨h0, hx, -⟩
  obtain rfl : c = '0' := by simpa using h0
  rcases tl with _ | ⟨d, tl⟩
  · exact ht rfl
  · have hd := h.digit d (List.mem_cons_of_mem _ List.mem_cons_self)
    have hx' : d ≠ 'x' ∧ d ≠ 'X' :=
      ⟨ne_of_isDigit (Nat.le_refl 16) hd (by decide), ne_of_isDigit (Nat.le_refl 16) hd (by decide)⟩
    rcases hx with hx | hx
    · exact hx'.1 (by simpa using hx)
    · exact hx'.2 (by simpa using hx)

/-- Digits are read up to what stops them, unless they are the 0 of a prefix. -/
theorem strtoull_digits (hb : b ≤ 16) (h : Digits b t n) (hstop : Stops b rest)
    (hzero : b = 16 → t = ['0'] → skipHexPrefix (t ++ rest) = t ++ rest) :
    strtoull b (t ++ rest) = (clamp n, rest) ∧ erange b (t ++ rest) = decide (2 ^ 64 ≤ n) := by
  obtain ⟨c, tl, ht, hc⟩ := h.head
  refine strtoull_of_span hb (by rw [ht]; rfl) hc h hstop ?_
  split_ifs with h16
  · subst h16
    exact skipHexPrefix_append h (hzero rfl)
  · rfl

end Head

/-! ## Hexadecimal numbers -/

/-- The prefix, which `t` may or may not have. -/
def HexPrefixed (ds t : List Char) : Prop := t = ds ∨ t = '0' :: 'x' :: ds ∨ t = '0' :: 'X' :: ds

/-- A hexadecimal number, with or without its prefix. -/
def Hexnum (t : List Char) (n : Nat) : Prop := ∃ ds, HexPrefixed ds t ∧ Digits 16 ds n

/-- What follows cannot belong to the hexadecimal number `t`: no digit, and no prefix that `t` is
the 0 of. -/
def HexStops (t rest : List Char) : Prop :=
  Stops 16 rest ∧ (t = ['0'] → skipHexPrefix (t ++ rest) = t ++ rest)

section Hex

variable {n : Nat} {t rest : List Char}

theorem Hexnum.head (h : Hexnum t n) : ∃ c tl, t = c :: tl ∧ isDigit 16 c = true := by
  obtain ⟨ds, rfl | rfl | rfl, hds⟩ := h
  · exact hds.head
  · exact ⟨'0', _, rfl, by decide⟩
  · exact ⟨'0', _, rfl, by decide⟩

theorem skipHexPrefix_prefixed {x : Char} (hx : x = 'x' ∨ x = 'X') (h : Digits 16 t n) :
    skipHexPrefix ('0' :: x :: t ++ rest) = t ++ rest := by
  obtain ⟨c, tl, rfl, hc⟩ := h.head
  unfold skipHexPrefix
  rw [if_pos]
  · rfl
  · rcases hx with rfl | rfl <;> simp [hc]

/-- A hexadecimal number is read up to what stops it. -/
theorem strtoull_hexnum (h : Hexnum t n) (hstop : HexStops t rest) :
    strtoull 16 (t ++ rest) = (clamp n, rest) ∧ erange 16 (t ++ rest) = decide (2 ^ 64 ≤ n) := by
  obtain ⟨ds, rfl | rfl | rfl, hds⟩ := h
  · exact strtoull_digits (Nat.le_refl 16) hds hstop.1 fun _ => hstop.2
  · refine strtoull_of_span (Nat.le_refl 16) rfl (by decide) hds hstop.1 ?_
    exact skipHexPrefix_prefixed (Or.inl rfl) hds
  · refine strtoull_of_span (Nat.le_refl 16) rfl (by decide) hds hstop.1 ?_
    exact skipHexPrefix_prefixed (Or.inr rfl) hds

/-- A text that starts with a hexadecimal digit starts with a hexadecimal number. -/
theorem exists_hexnum {s : List Char} (h : s.head?.any (isDigit 16) = true) :
    ∃ t n rest, s = t ++ rest ∧ Hexnum t n ∧ HexStops t rest := by
  by_cases hp : s.head? = some '0' ∧ (s[1]? = some 'x' ∨ s[1]? = some 'X')
      ∧ s[2]?.any (isDigit 16) = true
  · -- the prefix of a number
    obtain ⟨h0, h1, h2⟩ := hp
    obtain ⟨x, s, rfl, hx⟩ : ∃ x s', s = '0' :: x :: s' ∧ (x = 'x' ∨ x = 'X') := by
      rcases s with _ | ⟨a, _ | ⟨x, s⟩⟩
      · cases h0
      · simp at h1
      · obtain rfl : a = '0' := by simpa using h0
        exact ⟨x, s, rfl, by simpa using h1⟩
    have hs : s.head?.any (isDigit 16) = true := by
      rw [List.head?_eq_getElem?]
      simpa using h2
    refine ⟨'0' :: x :: s.takeWhile (isDigit 16), _, s.dropWhile (isDigit 16), ?_,
      ⟨_, ?_, digits_takeWhile hs⟩, stops_dropWhile, fun hone => ?_⟩
    · rw [List.cons_append, List.cons_append, List.takeWhile_append_dropWhile]
    · rcases hx with rfl | rfl
      · exact Or.inr (Or.inl rfl)
      · exact Or.inr (Or.inr rfl)
    · simp at hone
  · refine ⟨s.takeWhile (isDigit 16), _, s.dropWhile (isDigit 16),
      (List.takeWhile_append_dropWhile).symm, ⟨_, Or.inl rfl, digits_takeWhile h⟩,
      stops_dropWhile, fun _ => ?_⟩
    rw [List.takeWhile_append_dropWhile, skipHexPrefix, if_neg hp]

end Hex

/-! ## Texts that are a number -/

/-- The number that a text is, with a sign or without one; 0 where it is none. -/
def intOf (s : List Char) : Int :=
  let t := s.dropWhile isspace
  let ds := if t.head? = some '-' ∨ t.head? = some '+' then t.tail else t
  if ds.all (isDigit 10) then
    if t.head? = some '-' then -(ofDigits 10 ds : Int) else ofDigits 10 ds
  else 0

theorem intOf_nil : intOf [] = 0 := by simp [intOf, ofDigits]

/-- A number in 64 bits. One too large is the largest, and a negative one wraps. -/
def wrapped (i : Int) : Nat := if 2 ^ 64 ≤ i.natAbs then 2 ^ 64 - 1 else (i % 2 ^ 64).toNat

theorem wrapped_ofNat {n : Nat} (h : n < 2 ^ 64) : wrapped n = n := by
  rw [wrapped, if_neg (by omega)]
  omega

/-- What `strtoull` makes of a number it reads to the end, and 0 of any other text. -/
theorem strtoull_intOf (s : List Char) :
    (if (strtoull 10 s).2 = [] then (strtoull 10 s).1 else 0) = wrapped (intOf s) := by
  have hbase : ¬ (10 : Nat) = 16 := by decide
  simp only [strtoull, intOf, if_neg hbase]
  generalize s.dropWhile isspace = t
  generalize (if t.head? = some '-' ∨ t.head? = some '+' then t.tail else t) = ds
  by_cases hdigits : ds.all (isDigit 10) = true
  · have htake : ds.takeWhile (isDigit 10) = ds :=
      List.takeWhile_eq_self_iff.2 (List.all_eq_true.1 hdigits)
    have hdrop : ds.dropWhile (isDigit 10) = [] :=
      List.dropWhile_eq_nil_iff.2 (List.all_eq_true.1 hdigits)
    rw [htake, hdrop, if_pos hdigits]
    by_cases hnil : ds = []
    · have hzero : ofDigits 10 [] = 0 := rfl
      simp [hnil, hzero, wrapped]
    · rw [if_neg hnil, if_pos rfl, wrapped]
      dsimp only
      split_ifs <;> omega
  · have hdrop : ds.dropWhile (isDigit 10) ≠ [] := fun h =>
      hdigits (List.all_eq_true.2 (List.dropWhile_eq_nil_iff.1 h))
    rw [if_neg hdigits]
    by_cases htake : ds.takeWhile (isDigit 10) = []
    · rw [if_pos htake]
      exact ite_self 0
    · rw [if_neg htake, if_neg hdrop]
      rfl

/-- A text that starts with a digit, and is one. -/
theorem intOf_digits {s : List Char} {n : Nat} (h : Digits 10 s n) : intOf s = n := by
  obtain ⟨c, tl, hs, hc⟩ := h.head
  have hspace : s.dropWhile isspace = s := by
    rw [hs, List.dropWhile_cons_of_neg (by simp [isspace_of_isDigit (by decide) hc])]
  have hhead : s.head? = some c := by rw [hs]; rfl
  have hsign : c ≠ '-' ∧ c ≠ '+' :=
    ⟨ne_of_isDigit (by decide) hc (by decide), ne_of_isDigit (by decide) hc (by decide)⟩
  simp only [intOf, hspace, hhead, Option.some.injEq, hsign.1, hsign.2, or_self, if_false]
  rw [if_pos (List.all_eq_true.2 h.digit), h.value]

theorem intOf_neg {s : List Char} {n : Nat} (h : Digits 10 s n) : intOf ('-' :: s) = -n := by
  have hspace : ('-' :: s).dropWhile isspace = '-' :: s := rfl
  simp only [intOf, hspace, List.head?_cons, true_or, if_true, List.tail_cons]
  rw [if_pos (List.all_eq_true.2 h.digit), h.value]

end CText
