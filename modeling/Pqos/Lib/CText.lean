import Mathlib.Algebra.Group.Nat.Defs
import Mathlib.Data.List.TakeWhile
import Mathlib.Tactic.Common

/-!
# Text as C reads and prints it

Strings are lists of characters. The functions follow the C library's: `strtoull` skips white space,
takes a sign and a hexadecimal prefix, and clamps; `strtok` drops empty tokens; `fgets` cuts a line
that does not fit its buffer. Numbers are printed with `Nat.toDigits`, and what is printed is read
back.
-/

namespace CText

/-- The value of a digit in any base up to 36, and 36 for what is no digit. -/
def digitVal (c : Char) : Nat :=
  if '0' ≤ c ∧ c ≤ '9' then c.toNat - 48
  else if 'a' ≤ c ∧ c ≤ 'z' then c.toNat - 87
  else if 'A' ≤ c ∧ c ≤ 'Z' then c.toNat - 55
  else 36

def isDigit (base : Nat) (c : Char) : Bool := digitVal c < base

def isspace (c : Char) : Bool := c = ' ' ∨ (9 ≤ c.toNat ∧ c.toNat ≤ 13)

def ofDigits (base : Nat) (s : List Char) : Nat := s.foldl (fun v c => v * base + digitVal c) 0

/-- Past `0x` when a hexadecimal digit follows it. -/
def skipHexPrefix (s : List Char) : List Char :=
  if s.head? = some '0' ∧ (s[1]? = some 'x' ∨ s[1]? = some 'X') ∧ s[2]?.any (isDigit 16)
      then s.drop 2
  else s

/-- The number `s` starts with, and the rest; `s` itself when there is none. A number too large is
the largest, and a negative one wraps. -/
def strtoull (base : Nat) (s : List Char) : Nat × List Char :=
  let t := s.dropWhile isspace
  let neg := t.head? = some '-'
  let t := if neg ∨ t.head? = some '+' then t.tail else t
  let t := if base = 16 then skipHexPrefix t else t
  let v := ofDigits base (t.takeWhile (isDigit base))
  if t.takeWhile (isDigit base) = [] then (0, s)
  else (if 2 ^ 64 ≤ v then 2 ^ 64 - 1 else if neg then (2 ^ 64 - v) % 2 ^ 64 else v,
    t.dropWhile (isDigit base))

def strcasecmp (s t : List Char) : Bool := s.map Char.toLower = t.map Char.toLower

/-- What is before the first `c` and what is after it. -/
def strchr (c : Char) : List Char → Option (List Char × List Char)
  | [] => none
  | a :: s => if a = c then some ([], s) else (strchr c s).map fun (l, r) => (a :: l, r)

/-- What is before the first `c`, and what is after it when there is one. -/
def strsep (c : Char) (s : List Char) : List Char × Option (List Char) :=
  match strchr c s with
  | some (l, r) => (l, some r)
  | none => (s, none)

/-- What is left of a text from the first of some characters on, nothing if it has none of them. -/
def strpbrk (s accept : List Char) : List Char := s.dropWhile fun c => c ∉ accept

def strtok (sep : Char) (s : List Char) : List (List Char) := (s.splitOn sep).filter (· ≠ [])

/-- The characters up to the first NUL. -/
def cstr (s : List Char) : List Char := s.takeWhile (· ≠ Char.ofNat 0)

/-- What the calls of `fgets` return one after another, with `room` characters left in the buffer
that holds `line`. -/
def fgetsAll (size : Nat) : Nat → List Char → List Char → List (List Char)
  | _, line, [] => if line = [] then [] else [line]
  | room, line, c :: s =>
    if c = '\n' ∨ room ≤ 1 then (line ++ [c]) :: fgetsAll size (size - 1) [] s
    else fgetsAll size (room - 1) (line ++ [c]) s

/-- The lines of a file, read with a buffer of `size` characters. -/
def fgets (size : Nat) (s : List Char) : List (List Char) := fgetsAll size (size - 1) [] s

/-! ## Numbers -/

section Digits

variable {b n : Nat}

theorem mem_toDigits (hb : 1 < b) {c : Char} (h : c ∈ Nat.toDigits b n) :
    ∃ d < b, c = Nat.digitChar d := by
  induction n using Nat.base_induction b hb with
  | single m hm =>
    rw [Nat.toDigits_of_lt_base hm, List.mem_singleton] at h
    exact ⟨m, hm, h⟩
  | digit m k hk hm ih =>
    rw [← Nat.toDigits_append_toDigits hb hm hk, Nat.toDigits_of_lt_base hk, List.mem_append,
      List.mem_singleton] at h
    exact h.elim ih fun h => ⟨k, hk, h⟩

theorem digitVal_digitChar : ∀ d < 16, digitVal (Nat.digitChar d) = d := by decide

theorem ofDigits_append (s : List Char) (c : Char) :
    ofDigits b (s ++ [c]) = ofDigits b s * b + digitVal c := by
  rw [ofDigits, List.foldl_append]
  rfl

theorem ofDigits_toDigits (hb : 1 < b) (hb' : b ≤ 16) : ofDigits b (Nat.toDigits b n) = n := by
  induction n using Nat.base_induction b hb with
  | single m hm =>
    have := digitVal_digitChar m (by omega)
    simpa [Nat.toDigits_of_lt_base hm, ofDigits] using this
  | digit m k hk hm ih =>
    rw [← Nat.toDigits_append_toDigits hb hm hk, Nat.toDigits_of_lt_base hk, ofDigits_append, ih,
      digitVal_digitChar k (by omega), Nat.mul_comm]

/-- No digit is anything the readers treat specially. -/
theorem digitChar_plain : ∀ d < 16, isspace (Nat.digitChar d) = false
    ∧ Nat.digitChar d ∉ ['-', '+', 'x', 'X', ':', ';', '=', '\n', Char.ofNat 0] := by decide

theorem takeWhile_append_stop {p : Char → Bool} {s t : List Char} (hs : ∀ c ∈ s, p c = true)
    (ht : ∀ c, t.head? = some c → p c = false) :
    (s ++ t).takeWhile p = s ∧ (s ++ t).dropWhile p = t := by
  rw [List.takeWhile_append_of_pos hs, List.dropWhile_append_of_pos hs]
  rcases t with _ | ⟨c, t⟩
  · simp
  · have hc := ht c rfl
    simp [hc]

/-- A number as it may be printed: spaces, then digits, the first of them zeros or not. -/
def Numeral (b n : Nat) (s : List Char) : Prop :=
  ∃ spaces ds, s = List.replicate spaces ' ' ++ ds ∧ ds ≠ []
    ∧ (∀ c ∈ ds, ∃ d < b, c = Nat.digitChar d) ∧ ofDigits b ds = n

theorem numeral_toDigits (hb : 1 < b) (hb' : b ≤ 16) (n : Nat) : Numeral b n (Nat.toDigits b n) :=
  ⟨0, _, rfl, Nat.toDigits_ne_nil, fun _ => mem_toDigits hb, ofDigits_toDigits hb hb'⟩

theorem Numeral.ne_nil {s : List Char} (h : Numeral b n s) : s ≠ [] := by
  obtain ⟨spaces, ds, rfl, hne, -, -⟩ := h
  simp [hne]

theorem Numeral.mem {s : List Char} (h : Numeral b n s) {c : Char} (hc : c ∈ s) :
    c = ' ' ∨ ∃ d < b, c = Nat.digitChar d := by
  obtain ⟨spaces, ds, rfl, -, hds, -⟩ := h
  exact (List.mem_append.1 hc).imp List.eq_of_mem_replicate (hds c)

theorem Numeral.plain (hb' : b ≤ 16) {s : List Char} (h : Numeral b n s) {c : Char} (hc : c ∈ s) :
    c ∉ ['-', '+', 'x', 'X', ':', ';', '=', '\n', Char.ofNat 0] := by
  rcases h.mem hc with rfl | ⟨d, hd, rfl⟩
  · decide
  · exact (digitChar_plain d (by omega)).2

/-- A printed number is read back, up to what cannot belong to it. -/
theorem strtoull_numeral (hb' : b ≤ 16) (hn : n < 2 ^ 64) {s rest : List Char}
    (h : Numeral b n s)
    (hrest : ∀ c, rest.head? = some c → isDigit b c = false ∧ c ≠ 'x' ∧ c ≠ 'X') :
    strtoull b (s ++ rest) = (n, rest) := by
  obtain ⟨spaces, ds, rfl, hne, hds, rfl⟩ := h
  have hplain : ∀ c ∈ ds, isspace c = false ∧ isDigit b c = true
      ∧ c ∉ ['-', '+', 'x', 'X', ':', ';', '=', '\n', Char.ofNat 0] := by
    intro c hc
    obtain ⟨d, hd, rfl⟩ := hds c hc
    have hchar := digitChar_plain d (by omega)
    refine ⟨hchar.1, ?_, hchar.2⟩
    simpa [isDigit, digitVal_digitChar d (by omega)] using hd
  obtain ⟨c, tl, htl⟩ := List.exists_cons_of_ne_nil hne
  have hc : c ∈ ds := by
    rw [htl]
    exact List.mem_cons_self
  have hspace : (List.replicate spaces ' ' ++ ds ++ rest).dropWhile isspace = ds ++ rest := by
    rw [List.append_assoc, List.dropWhile_append_of_pos, htl, List.cons_append,
      List.dropWhile_cons_of_neg (by simp [(hplain c hc).1])]
    intro e he
    rw [List.eq_of_mem_replicate he]
    decide
  have hhead : (ds ++ rest).head? = some c := by rw [htl]; rfl
  have hhex : skipHexPrefix (ds ++ rest) = ds ++ rest := by
    unfold skipHexPrefix
    refine if_neg ?_
    rintro ⟨-, hx, -⟩
    have hsnd : ∀ e, (ds ++ rest)[1]? = some e → e ≠ 'x' ∧ e ≠ 'X' := by
      intro e he
      rw [htl, List.cons_append, List.getElem?_cons_succ] at he
      rcases tl with _ | ⟨e', tl⟩
      · rw [List.nil_append, ← List.head?_eq_getElem?] at he
        exact (hrest e he).2
      · obtain rfl : e' = e := by simpa using he
        have hmem := (hplain e' (by simp [htl])).2.2
        simp only [List.mem_cons, not_or] at hmem
        exact ⟨hmem.2.2.1, hmem.2.2.2.1⟩
    exact hx.elim (fun h => (hsnd _ h).1 rfl) fun h => (hsnd _ h).2 rfl
  have hdigits : (ds ++ rest).takeWhile (isDigit b) = ds
      ∧ (ds ++ rest).dropWhile (isDigit b) = rest :=
    takeWhile_append_stop (fun e he => (hplain e he).2.1) fun e he => (hrest e he).1
  have hneg : c ≠ '-' ∧ c ≠ '+' := by
    have hmem := (hplain c hc).2.2
    simp only [List.mem_cons, not_or] at hmem
    exact ⟨hmem.1, hmem.2.1⟩
  unfold strtoull
  simp only [hspace, hhead, Option.some.injEq, hneg.1, hneg.2, or_self, if_false, hhex, ite_self,
    hdigits.1, hdigits.2, hne, Nat.not_le.2 hn]

end Digits

/-! ## Tokens and lines -/

theorem strchr_append {c : Char} {l r : List Char} (h : c ∉ l) :
    strchr c (l ++ c :: r) = some (l, r) := by
  induction l with
  | nil => simp [strchr]
  | cons a l ih =>
    rw [List.mem_cons, not_or] at h
    rw [List.cons_append, strchr, if_neg (Ne.symm h.1), ih h.2, Option.map_some]

theorem strchr_eq_none {c : Char} : ∀ {s : List Char}, c ∉ s → strchr c s = none
  | [], _ => rfl
  | a :: s, h => by
    rw [List.mem_cons, not_or] at h
    rw [strchr, if_neg (Ne.symm h.1), strchr_eq_none h.2, Option.map_none]

theorem strpbrk_eq_nil {s accept : List Char} : strpbrk s accept = [] ↔ ∀ c ∈ s, c ∉ accept := by
  rw [strpbrk, List.dropWhile_eq_nil_iff]
  simp

theorem strtok_intercalate {sep : Char} {tokens : List (List Char)} (hne : tokens ≠ [])
    (h : ∀ t ∈ tokens, t ≠ [] ∧ sep ∉ t) : strtok sep ([sep].intercalate tokens) = tokens := by
  rw [strtok, List.splitOn_intercalate sep (fun t ht => (h t ht).2) hne, List.filter_eq_self]
  exact fun t ht => by simpa using (h t ht).1

theorem strtok_append (sep : Char) (s t : List Char) :
    strtok sep (s ++ sep :: t) = strtok sep s ++ strtok sep t := by
  rw [strtok, List.splitOn_append_cons_self, List.filter_append, strtok, strtok]

theorem strtok_word {sep : Char} {t : List Char} (hne : t ≠ []) (h : sep ∉ t) :
    strtok sep t = [t] := by
  rw [strtok, List.splitOn_eq_singleton h, List.filter_cons_of_pos (by simpa using hne),
    List.filter_nil]

theorem mem_intercalate {sep c : Char} :
    ∀ {tokens : List (List Char)}, c ∈ [sep].intercalate tokens → c = sep ∨ ∃ t ∈ tokens, c ∈ t
  | [], h => by simp [List.intercalate] at h
  | [t], h => Or.inr ⟨t, by simp, by simpa [List.intercalate] using h⟩
  | t :: u :: tokens, h => by
    rw [List.intercalate_cons_cons, List.mem_append, List.mem_append, List.mem_singleton] at h
    rcases h with (h | h) | h
    · exact Or.inr ⟨t, by simp, h⟩
    · exact Or.inl h
    · rcases mem_intercalate h with h | ⟨v, hv, hc⟩
      · exact Or.inl h
      · exact Or.inr ⟨v, List.mem_cons_of_mem _ hv, hc⟩

/-- A text that is not all separators has a token. -/
theorem strtok_ne_nil {sep c : Char} {s : List Char} (hc : c ∈ s) (hsep : c ≠ sep) :
    strtok sep s ≠ [] := by
  intro hnil
  rw [strtok, List.filter_eq_nil_iff] at hnil
  have hjoin : [sep].intercalate (s.splitOn sep) = s := List.intercalate_splitOn sep
  rw [← hjoin] at hc
  obtain ⟨t, ht, hct⟩ := (mem_intercalate hc).resolve_left hsep
  have hempty := hnil t ht
  rw [decide_eq_true_eq, not_not] at hempty
  rw [hempty] at hct
  cases hct

/-- Every token takes at least its own length of what is printed. -/
theorem length_le_intercalate (sep : Char) :
    ∀ {tokens : List (List Char)}, (∀ t ∈ tokens, t ≠ []) →
      tokens.length ≤ ([sep].intercalate tokens).length
  | [], _ => Nat.zero_le _
  | [t], h => by
    rw [List.intercalate_singleton]
    exact List.length_pos_iff.2 (h t (by simp))
  | t :: u :: tokens, h => by
    have ih := length_le_intercalate sep fun v hv => h v (List.mem_cons_of_mem t hv)
    rw [List.intercalate_cons_cons, List.length_append, List.length_append, List.length_cons]
    rw [List.length_singleton]
    omega

/-- The tokens with `tail` after the last one. -/
def tailed (tail : List Char) : List (List Char) → List (List Char)
  | [] => []
  | [t] => [t ++ tail]
  | t :: u :: tokens => t :: tailed tail (u :: tokens)

theorem intercalate_append (sep : Char) (tail : List Char) :
    ∀ {tokens : List (List Char)}, tokens ≠ [] →
      [sep].intercalate tokens ++ tail = [sep].intercalate (tailed tail tokens)
  | [t], _ => by simp [tailed, List.intercalate]
  | [t, u], _ => by
    simp [tailed, List.intercalate]
  | t :: u :: v :: tokens, _ => by
    have ih := intercalate_append sep tail (List.cons_ne_nil u (v :: tokens))
    rw [List.intercalate_cons_cons, List.append_assoc, ih]
    exact List.intercalate_cons_cons.symm

theorem tailed_ne_nil {tail : List Char} :
    ∀ {tokens : List (List Char)}, tokens ≠ [] → tailed tail tokens ≠ []
  | [_], _ => List.cons_ne_nil _ _
  | _ :: _ :: _, _ => List.cons_ne_nil _ _

theorem mem_tailed {tail t : List Char} :
    ∀ {tokens : List (List Char)}, t ∈ tailed tail tokens → t ∈ tokens ∨ ∃ u ∈ tokens, t = u ++ tail
  | [u], h => Or.inr ⟨u, by simp, by simpa [tailed] using h⟩
  | u :: v :: tokens, h => by
    rcases List.mem_cons.1 h with rfl | h
    · exact Or.inl List.mem_cons_self
    · rcases mem_tailed h with h | ⟨w, hw, rfl⟩
      · exact Or.inl (List.mem_cons_of_mem _ h)
      · exact Or.inr ⟨w, List.mem_cons_of_mem _ hw, rfl⟩

/-- A fold does not see the tail of the last token when its step does not. -/
theorem foldlM_tailed {ε S : Type} {f : S → List Char → Except ε S} {tail : List Char} :
    ∀ {tokens : List (List Char)} {s : S}, (∀ t ∈ tokens, ∀ s, f s (t ++ tail) = f s t) →
      (tailed tail tokens).foldlM f s = tokens.foldlM f s
  | [], _, _ => rfl
  | [t], s, h => by rw [tailed, List.foldlM_cons, List.foldlM_cons, h t (by simp)]
  | t :: u :: tokens, s, h => by
    rw [tailed, List.foldlM_cons, List.foldlM_cons]
    refine bind_congr fun s' => ?_
    exact foldlM_tailed fun v hv => h v (List.mem_cons_of_mem t hv)

theorem fgetsAll_line {size room : Nat} {line l s : List Char} (hl : '\n' ∉ l)
    (hroom : l.length < room) :
    fgetsAll size room line (l ++ '\n' :: s)
      = (line ++ l ++ ['\n']) :: fgetsAll size (size - 1) [] s := by
  induction l generalizing room line with
  | nil => simp [fgetsAll]
  | cons c l ih =>
    rw [List.mem_cons, not_or] at hl
    rw [List.length_cons] at hroom
    have hgo : ¬ (c = '\n' ∨ room ≤ 1) := by
      rintro (h | h)
      · exact hl.1 h.symm
      · omega
    rw [List.cons_append, fgetsAll, if_neg hgo, ih hl.2 (by omega)]
    simp

theorem fgetsAll_cut {size room : Nat} {line l s : List Char} (hl : '\n' ∉ l) (hroom : 0 < room)
    (hlen : room ≤ l.length) : fgetsAll size room line (l ++ '\n' :: s)
      = (line ++ l.take room) :: fgetsAll size (size - 1) [] (l.drop room ++ '\n' :: s) := by
  induction l generalizing room line with
  | nil =>
    rw [List.length_nil] at hlen
    omega
  | cons c l ih =>
    rw [List.mem_cons, not_or] at hl
    rw [List.length_cons] at hlen
    rw [List.cons_append, fgetsAll]
    obtain ⟨room, rfl⟩ := Nat.exists_eq_add_of_lt hroom
    rw [Nat.zero_add]
    rcases room with _ | room
    · rw [if_pos (Or.inr (Nat.le_refl _))]
      rfl
    · have hgo : ¬ (c = '\n' ∨ room + 1 + 1 ≤ 1) := by
        rintro (h | h)
        · exact hl.1 h.symm
        · omega
      rw [if_neg hgo, Nat.add_sub_cancel, ih hl.2 (by omega) (by omega)]
      simp

/-- The first thing read is the first line or a part of it. -/
theorem fgets_head {size : Nat} (hsize : 1 < size) {l s : List Char} (hl : '\n' ∉ l) :
    ∃ chunk rest, fgets size (l ++ '\n' :: s) = chunk :: rest ∧ ∀ c ∈ chunk, c ∈ l ∨ c = '\n' := by
  rcases Nat.lt_or_ge l.length (size - 1) with hlen | hlen
  · refine ⟨_, _, fgetsAll_line hl hlen, fun c hc => ?_⟩
    simpa using hc
  · exact ⟨_, _, fgetsAll_cut hl (by omega) hlen, fun c hc => Or.inl (List.mem_of_mem_take hc)⟩

/-- Lines that fit the buffer are read as they were written. -/
theorem fgets_lines {size : Nat} {lines : List (List Char)}
    (h : ∀ line ∈ lines, line.length < size ∧ ∃ l, line = l ++ ['\n'] ∧ '\n' ∉ l) :
    fgets size lines.flatten = lines := by
  induction lines with
  | nil => rfl
  | cons line lines ih =>
    obtain ⟨hlen, l, rfl, hl⟩ := h line List.mem_cons_self
    rw [List.length_append, List.length_singleton] at hlen
    rw [fgets, List.flatten_cons, List.append_assoc, List.singleton_append,
      fgetsAll_line hl (by omega), List.nil_append]
    exact congrArg _ (ih fun line hline => h line (List.mem_cons_of_mem _ hline))

end CText
