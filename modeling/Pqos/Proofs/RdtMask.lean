import Pqos.RdtMask
import Pqos.Allocation
import Pqos.Lib.BitRun

/-!
# Which parameters are masks

The parser of masks takes a string apart at its first hexadecimal digit, its comma and the ends of
its numbers, and looks at nothing else. So there is one way to read a string, and what the parser
does with it depends on the pieces: the grammar allows fewer of them than the parser takes.
-/

namespace Pqos.Rdt

open CText BitRun

/-! ## Contiguity -/

section Contiguity

variable {m : Word} {lo hi : Nat}

/-- Clearing the lowest bit of a mask leaves one bit less. -/
theorem bits_land_pred (h : m ≠ 0) :
    (bits 64 (m &&& (m - 1)).toNat).card + 1 = (bits 64 m.toNat).card := by
  have hne : m.toNat ≠ 0 := fun h0 => h (BitVec.eq_of_toNat_eq h0)
  obtain ⟨lo, hi, hrun⟩ := exists_lowestRun hne
  have hpred : (m &&& (m - 1)).toNat = m.toNat &&& (m.toNat - 1) := by
    have hlt := m.isLt
    have hsub : (m - 1).toNat = m.toNat - 1 := by
      rw [BitVec.toNat_sub]
      simp only [BitVec.ofNat_eq_ofNat, BitVec.toNat_ofNat]
      omega
    rw [BitVec.toNat_and, hsub]
  rw [hpred]
  exact hrun.bits_land_pred m.isLt

theorem bitsCountFrom_eq {n : Nat} (h : (bits 64 m.toNat).card ≤ n) :
    bitsCountFrom n m = (bits 64 m.toNat).card := by
  induction n generalizing m with
  | zero => exact (Nat.le_zero.1 h).symm
  | succ n ih =>
    rw [bitsCountFrom]
    split_ifs with hm
    · rw [hm]
      rfl
    · have hcard := bits_land_pred hm
      rw [ih (by omega), hcard]

theorem bitsCount_eq (m : Word) : bitsCount m = (bits 64 m.toNat).card :=
  bitsCountFrom_eq card_bits_le

/-- Before the run the loop counts nothing. -/
theorem firstRun_below (h : LowestRun m.toNat lo hi) {i n : Nat} (hi : i ≤ lo) (hn : i + n = 64)
    (hlo : lo < 64) : firstRun m i 0 n = firstRun m lo 0 (64 - lo) := by
  induction n generalizing i with
  | zero => omega
  | succ n ih =>
    rcases Nat.eq_or_lt_of_le hi with rfl | hlt
    · rw [show 64 - i = n + 1 by omega]
    · have hbit : m.getLsbD i = false := h.below i hlt
      rw [firstRun, hbit, if_neg Bool.false_ne_true, if_neg (Nat.lt_irrefl 0)]
      exact ih hlt (by omega)

/-- In the run it counts every bit, and at the end of the run it stops. -/
theorem firstRun_run (h : LowestRun m.toNat lo hi) {i n : Nat} (hlo : lo ≤ i) (hhi : i ≤ hi)
    (hn : i + n = 64) : firstRun m i (i - lo) n = hi - lo := by
  have hle : hi ≤ 64 := h.hi_le m.isLt
  have hlt := h.lt
  induction n generalizing i with
  | zero =>
    rw [firstRun]
    omega
  | succ n ih =>
    rcases Nat.eq_or_lt_of_le hhi with rfl | hi'
    · have hbit : m.getLsbD i = false := h.stop
      rw [firstRun, hbit, if_neg Bool.false_ne_true, if_pos (by omega)]
    · have hbit : m.getLsbD i = true := h.run i hlo hi'
      rw [firstRun, hbit, if_pos rfl, show i - lo + 1 = i + 1 - lo by omega]
      exact ih (by omega) hi' (by omega)

theorem firstRun_eq (h : LowestRun m.toNat lo hi) : firstRun m 0 0 64 = hi - lo := by
  have hle : hi ≤ 64 := h.hi_le m.isLt
  have hlt := h.lt
  have hrun := firstRun_run h (Nat.le_refl lo) (by omega) (by omega : lo + (64 - lo) = 64)
  rw [Nat.sub_self] at hrun
  rw [firstRun_below h (Nat.zero_le lo) rfl (by omega), hrun]

/-- The test accepts the masks whose bits are those of an interval. -/
theorem isContiguous_iff (m : Word) : isContiguous m = true ↔ Contiguous m.toNat := by
  unfold isContiguous
  rw [decide_eq_true_iff]
  by_cases hm : m = 0
  · subst hm
    exact ⟨fun h => absurd rfl h.1, fun h => absurd rfl h.ne_zero⟩
  · obtain ⟨lo, hi, hrun⟩ := exists_lowestRun_toNat hm
    rw [and_iff_right hm, bitsCount_eq, firstRun_eq hrun]
    exact hrun.card_iff m.isLt

theorem isContiguous_ofNat {n : Nat} (h : n < 2 ^ 64) :
    isContiguous (BitVec.ofNat 64 n) = true ↔ Contiguous n := by
  rw [isContiguous_iff, BitVec.toNat_ofNat, Nat.mod_eq_of_lt h]

end Contiguity

/-! ## The pieces of a string -/

/-- Blanks are all that stands in `g`. -/
def Blanks (g : List Char) : Prop := ∀ c ∈ g, isblank c = true

section Number

variable {g t rest s : List Char} {n k : Nat}

theorem span_blanks (hg : Blanks g) (h : ∀ c, s.head? = some c → isblank c = false) :
    (g ++ s).dropWhile isblank = s :=
  (takeWhile_append_stop hg h).2

theorem Hexnum.not_blank (h : Hexnum t n) (rest : List Char) :
    ∀ c, (t ++ rest).head? = some c → isblank c = false := by
  intro a ha
  obtain ⟨c, tl, rfl, hc⟩ := h.head
  obtain rfl : c = a := by simpa using ha
  exact isblank_of_isDigit (Nat.le_refl 16) hc

/-- A number after blanks is parsed unless it is too large. -/
theorem strToUint64_hexnum (hg : Blanks g) (h : Hexnum t n) (hstop : HexStops t rest) :
    strToUint64 (g ++ (t ++ rest)) 16
      = if 2 ^ 64 ≤ n then .error .einval else .ok (g.length + t.length, n) := by
  obtain ⟨hread, herange⟩ := strtoull_hexnum h hstop
  have hdigit : (t ++ rest).head?.any (isDigit 16) = true := by
    obtain ⟨c, tl, rfl, hc⟩ := h.head
    simpa using hc
  have hmove : rest ≠ t ++ rest := fun heq => by
    obtain ⟨c, tl, rfl, -⟩ := h.head
    have hlen := congrArg List.length heq
    simp only [List.length_append, List.length_cons] at hlen
    omega
  have hbase : ¬ ((16 : Nat) = 10 ∧ (t ++ rest).head?.any (isDigit 10) = false) := by simp
  unfold strToUint64
  simp only [span_blanks hg (Hexnum.not_blank h rest), hdigit, hread, herange, hmove, or_false,
    decide_eq_true_eq, reduceCtorEq, and_false, if_false, hbase]
  split_ifs with hbig
  · rfl
  · have hlen : (g ++ (t ++ rest)).length - rest.length = g.length + t.length := by
      simp only [List.length_append]
      omega
    rw [hlen, clamp_of_lt (Nat.not_le.1 hbig)]

/-- A parsed number stands after blanks and is not too large. -/
theorem strToUint64_eq_ok (h : strToUint64 s 16 = .ok (k, n)) :
    ∃ g t rest, s = g ++ (t ++ rest) ∧ Blanks g ∧ Hexnum t n ∧ HexStops t rest ∧ n < 2 ^ 64
      ∧ k = g.length + t.length := by
  have hsplit : s = s.takeWhile isblank ++ s.dropWhile isblank :=
    List.takeWhile_append_dropWhile.symm
  have hblanks : Blanks (s.takeWhile isblank) := fun c hc => List.mem_takeWhile_imp hc
  by_cases hd : (s.dropWhile isblank).head?.any (isDigit 16) = true
  · obtain ⟨t, m, rest, hs, hnum, hstop⟩ := exists_hexnum hd
    rw [hsplit, hs, strToUint64_hexnum hblanks hnum hstop] at h
    split_ifs at h with hbig
    obtain ⟨rfl, rfl⟩ := Prod.mk.inj (Except.ok.inj h)
    exact ⟨_, t, rest, hs ▸ hsplit, hblanks, hnum, hstop, Nat.not_le.1 hbig, rfl⟩
  · unfold strToUint64 at h
    simp [Bool.eq_false_iff.2 hd] at h

theorem strToUint64_ne_overread : strToUint64 s k ≠ .error .overread := by
  unfold strToUint64
  dsimp only
  split_ifs <;> simp

end Number

/-! ## Bounds -/

/-- No hexadecimal digit stands in `s`. -/
def Digitless (s : List Char) : Prop := ∀ c ∈ s, isDigit 16 c = false

/-- The parser looks for two masks. -/
def Dual (s : List Char) : Prop := s.head? = some '(' ∨ ',' ∈ s

section Bounds

variable {junk s rest : List Char}

theorem skipToXdigit_append (hjunk : Digitless junk) (hs : s.head?.any (isDigit 16) = true) :
    skipToXdigit (junk ++ s) = .ok s := by
  induction junk with
  | nil =>
    rcases s with _ | ⟨c, s⟩
    · cases hs
    · rw [List.head?_cons, Option.any_some] at hs
      rw [List.nil_append, skipToXdigit, if_pos hs]
  | cons c junk ih =>
    have hc := hjunk c List.mem_cons_self
    rw [List.cons_append, skipToXdigit, hc, if_neg Bool.false_ne_true]
    exact ih fun a ha => hjunk a (List.mem_cons_of_mem c ha)

theorem skipToXdigit_digitless : ∀ {s : List Char}, Digitless s →
    skipToXdigit s = .error .overread
  | [], _ => rfl
  | c :: s, h => by
    rw [skipToXdigit, h c List.mem_cons_self, if_neg Bool.false_ne_true]
    exact skipToXdigit_digitless fun a ha => h a (List.mem_cons_of_mem c ha)

/-- A string with a digit is what stands before its first one, and the rest. -/
theorem exists_skip : ∀ {s : List Char}, ¬ Digitless s →
    ∃ junk s', s = junk ++ s' ∧ Digitless junk ∧ s'.head?.any (isDigit 16) = true
  | [], h => absurd (fun c hc => absurd hc List.not_mem_nil) h
  | c :: s, h => by
    by_cases hc : isDigit 16 c = true
    · exact ⟨[], c :: s, rfl, fun a ha => absurd ha List.not_mem_nil, hc⟩
    · rw [Bool.not_eq_true] at hc
      have htail : ¬ Digitless s := fun hs => h fun a ha => by
        rcases List.mem_cons.1 ha with rfl | ha
        · exact hc
        · exact hs a ha
      obtain ⟨junk, s', rfl, hjunk, hhead⟩ := exists_skip htail
      refine ⟨c :: junk, s', rfl, fun a ha => ?_, hhead⟩
      rcases List.mem_cons.1 ha with rfl | ha
      · exact hc
      · exact hjunk a ha

theorem parseCodeMask_digitless (h : Digitless s) : parseCodeMask s = .error .overread := by
  rw [parseCodeMask, skipToXdigit_digitless h]
  rfl

theorem bind_ne_overread {α β : Type} {x : Except Stop α} {f : α → Except Stop β}
    (hx : x ≠ .error .overread) (hf : ∀ a, f a ≠ .error .overread) :
    x.bind f ≠ .error .overread := by
  rcases x with e | a
  · intro he
    rw [Except.bind, Except.error.injEq] at he
    exact hx (he ▸ rfl)
  · exact hf a

theorem map_ne_overread {α β : Type} {x : Except Stop α} {f : α → β} (h : x ≠ .error .overread) :
    x.map f ≠ .error .overread := by
  rcases x with e | a
  · intro he
    rw [Except.map, Except.error.injEq] at he
    exact h (he ▸ rfl)
  · intro he
    cases he

theorem parseCodeMask_ne_overread (h : ¬ Digitless s) : parseCodeMask s ≠ .error .overread := by
  obtain ⟨junk, s', rfl, hjunk, hhead⟩ := exists_skip h
  unfold parseCodeMask
  rw [skipToXdigit_append hjunk hhead]
  have hskip : (Except.ok s' : Except Stop (List Char)) ≠ .error .overread := by simp
  refine bind_ne_overread hskip fun x => bind_ne_overread strToUint64_ne_overread fun y => ?_
  dsimp only
  split <;> intro he <;> cases he

theorem strchr_isSome_iff {c : Char} : ∀ {s : List Char}, (strchr c s).isSome = true ↔ c ∈ s
  | [] => by simp [strchr]
  | a :: s => by
    rw [strchr]
    split_ifs with h
    · simp [h]
    · rw [Option.isSome_map, strchr_isSome_iff, List.mem_cons, or_iff_right (Ne.symm h)]

theorem dual_iff : (s.head? = some '(' ∨ (strchr ',' s).isSome = true) ↔ Dual s := by
  rw [strchr_isSome_iff]
  rfl

theorem parseMaskSet_dual (h : Dual s) (cmask : Nat) :
    parseMaskSet s (strchr ',' s).isSome cmask = (parseCodeMask s).bind fun x =>
      (strToUint64 x.1 16).map fun y => (s.length - x.1.length + y.1, y.2, x.2) := by
  unfold parseMaskSet
  rw [if_pos (dual_iff.2 h)]
  rcases parseCodeMask s with e | x
  · rfl
  · simp only [bind, Except.bind]
    cases strToUint64 x.1 16 <;> rfl

theorem parseMaskSet_single (h : ¬ Dual s) (cmask : Nat) :
    parseMaskSet s (strchr ',' s).isSome cmask
      = (strToUint64 s 16).map fun y => (y.1, y.2, cmask) := by
  unfold parseMaskSet
  rw [if_neg (mt dual_iff.1 h)]
  simp only [bind, Except.bind, pure, Except.pure]
  rcases strToUint64 s 16 with e | y
  · rfl
  · simp [Except.map]

theorem parseMaskSet_overread_iff (s : List Char) (cmask : Nat) :
    parseMaskSet s (strchr ',' s).isSome cmask = .error .overread ↔ Dual s ∧ Digitless s := by
  by_cases hd : Dual s
  · rw [parseMaskSet_dual hd]
    by_cases hless : Digitless s
    · rw [parseCodeMask_digitless hless]
      exact iff_of_true rfl ⟨hd, hless⟩
    · refine iff_of_false ?_ fun h => hless h.2
      exact bind_ne_overread (parseCodeMask_ne_overread hless) fun x =>
        map_ne_overread strToUint64_ne_overread
  · rw [parseMaskSet_single hd]
    exact iff_of_false (map_ne_overread strToUint64_ne_overread) fun h => hd h.1

/-- The parser stays within a string exactly if the string has a hexadecimal digit, or it looks for
one mask only. -/
theorem parseMaskSet_inBounds_iff (param : List Char) :
    parseMaskSet param (strchr ',' param).isSome 0 ≠ .error .overread
      ↔ (∃ c ∈ param, isDigit 16 c = true) ∨ ¬ (param.head? = some '(' ∨ ',' ∈ param) := by
  have hdigit : (∃ c ∈ param, isDigit 16 c = true) ↔ ¬ Digitless param := by
    unfold Digitless
    push Not
    simp only [Bool.not_eq_false]
  rw [Ne, parseMaskSet_overread_iff, hdigit, not_and_or, or_comm]
  rfl

/-- An opening parenthesis alone. -/
theorem parseMaskSet_paren :
    parseMaskSet ['('] (strchr ',' ['(']).isSome 0 = .error .overread := by
  decide

end Bounds

/-! ## The grammar -/

/-- What a parameter asks for. -/
inductive Masks
  | one (mask : Nat)
  | two (code data : Nat)

/-- Nothing, or blanks where those are allowed. -/
def Gap (blanks : Bool) (g : List Char) : Prop := Blanks g ∧ (blanks = false → g = [])

/-- The strings that are one hexadecimal number, or two with a comma between them and possibly
parentheses around them; with or without blanks in the places where the parser skips them. -/
inductive Written (blanks : Bool) : Masks → List Char → Prop
  | one {g t : List Char} {n : Nat} :
    Gap blanks g → Hexnum t n → Written blanks (.one n) (g ++ t)
  | two {g₁ t₁ g₂ g₃ t₂ : List Char} {c d : Nat} :
    Gap blanks g₁ → Hexnum t₁ c → Gap blanks g₂ → Gap blanks g₃ → Hexnum t₂ d →
    Written blanks (.two c d) (g₁ ++ (t₁ ++ (g₂ ++ ',' :: (g₃ ++ t₂))))
  | paren {g₀ g₁ t₁ g₂ g₃ t₂ : List Char} {c d : Nat} :
    Gap blanks g₀ → Gap blanks g₁ → Hexnum t₁ c → Gap blanks g₂ → Gap blanks g₃ → Hexnum t₂ d →
    Written blanks (.two c d) (g₀ ++ '(' :: (g₁ ++ (t₁ ++ (g₂ ++ ',' :: (g₃ ++ (t₂ ++ [')']))))))

/-- How wide the field for a mask is. -/
def RdtCfg.width : RdtCfg → Option Nat
  | .l2 _ => some 32
  | .l3 _ => some 64
  | .mba _ => none

/-- A contiguous mask is not zero. Two masks are for L3 only. -/
def Masks.Fits (ca : RdtCfg) : Masks → Prop
  | .one n => Contiguous n ∧ ∃ w, ca.width = some w ∧ n < 2 ^ w
  | .two c d => ca.width = some 64 ∧ (Contiguous c ∧ c < 2 ^ 64) ∧ Contiguous d ∧ d < 2 ^ 64

/-- `ca'` is `ca` with the masks in it, the class and what one mask leaves alone as they were. -/
def Masks.StoredIn : Masks → RdtCfg → RdtCfg → Prop
  | .one n, .l2 ca, .l2 ca' => ca'.waysMask.toNat = n ∧ ca'.classId = ca.classId
  | .one n, .l3 ca, .l3 ca' =>
    ca'.u.dataMask.toNat = n ∧ ca'.classId = ca.classId ∧ ca'.cdp = ca.cdp
  | .two c d, .l3 ca, .l3 ca' =>
    ca'.cdp = true ∧ ca'.u.codeMask.toNat = c ∧ ca'.u.dataMask.toNat = d
      ∧ ca'.classId = ca.classId
  | _, _, _ => False

/-- What is asked of the parser on `param`: it accepts the strings of the grammar with masks that
fit, and no others, and stores what is written. -/
structure Meets (blanks : Bool) (param : List Char) (ca : RdtCfg) : Prop where
  sound : ∀ ca', rdtCaStrToCbm param ca = .ok ca' →
    ∃ m, Written blanks m param ∧ m.Fits ca ∧ m.StoredIn ca ca'
  complete : ∀ m, Written blanks m param → m.Fits ca → ∃ ca', rdtCaStrToCbm param ca = .ok ca'
  inBounds : rdtCaStrToCbm param ca ≠ .error .overread

/-- The pieces of a string: the numbers at its head, `pre` before the first of them, `gap` around
the comma and `post` after the last. -/
def Reads : Masks → List Char → List Char → List Char → List Char → Prop
  | .one n, pre, gap, post, s => gap = [] ∧ Blanks pre
    ∧ ∃ t, s = pre ++ (t ++ post) ∧ Hexnum t n ∧ HexStops t post
  | .two c d, pre, gap, post, s => Digitless pre ∧ ∃ t₁ g₂ g₃ t₂,
    s = pre ++ (t₁ ++ (g₂ ++ ',' :: (g₃ ++ (t₂ ++ post)))) ∧ gap = g₂ ++ g₃
      ∧ Hexnum t₁ c ∧ Blanks g₂ ∧ Blanks g₃ ∧ Hexnum t₂ d ∧ HexStops t₂ post

/-- What may stand around two masks: nothing, or parentheses. -/
def Enclosed (blanks : Bool) (pre post : List Char) : Prop :=
  (Gap blanks pre ∧ post = [])
    ∨ ∃ g g', Gap blanks g ∧ Gap blanks g' ∧ pre = g ++ '(' :: g' ∧ post = [')']

/-- The strings the parser goes wrong on. -/
inductive Misread (blanks : Bool) (param : List Char) (ca : RdtCfg) : Prop
  /-- Two masks are looked for, and there is no digit. -/
  | overread : ca.width ≠ none → Dual param → Digitless param → Misread blanks param ca
  /-- A mask with something after it, or too wide for its field. -/
  | one {w n : Nat} {pre post : List Char} : ca.width = some w → ¬ Dual param →
    Reads (.one n) pre [] post param → Contiguous n → n < 2 ^ 64 →
    ¬ (Gap blanks pre ∧ post = [] ∧ n < 2 ^ w) → Misread blanks param ca
  /-- Two masks with something around them, or the code mask zero. -/
  | two {c d : Nat} {pre gap post : List Char} : ca.width ≠ none →
    Reads (.two c d) pre gap post param → Contiguous d → d < 2 ^ 64 →
    (c = 0 ∨ ca.width = some 64 ∧ Contiguous c ∧ c < 2 ^ 64) →
    (c = 0 ∨ ¬ (Gap blanks gap ∧ Enclosed blanks pre post)) → Misread blanks param ca

section Pieces

variable {blanks : Bool} {s pre gap post pre' gap' post' : List Char} {n n' c d c' d' k : Nat}

theorem Blanks.digitless (h : Blanks pre) : Digitless pre := by
  intro c hc
  have hblank := h c hc
  by_contra hd
  rw [Bool.not_eq_false] at hd
  rw [isblank_of_isDigit (Nat.le_refl 16) hd] at hblank
  cases hblank

theorem digitless_append : Digitless (pre ++ post) ↔ Digitless pre ∧ Digitless post := by
  unfold Digitless
  simp only [List.mem_append, or_imp, forall_and]

/-- Blanks, or a comma after them, stop a number. -/
theorem hexStops_comma {t g : List Char} (hg : Blanks g) : HexStops t (g ++ ',' :: s) := by
  have hhead : ∀ a, (g ++ ',' :: s).head? = some a → isDigit 16 a = false ∧ a ≠ 'x' ∧ a ≠ 'X' := by
    intro a ha
    rcases g with _ | ⟨b, g⟩
    · obtain rfl : ',' = a := by simpa using ha
      decide
    · obtain rfl : b = a := by simpa using ha
      have hb := hg b List.mem_cons_self
      refine ⟨hg.digitless b List.mem_cons_self, ?_, ?_⟩ <;>
      · rintro rfl
        revert hb
        decide
  refine ⟨fun a ha => (hhead a ha).1, ?_⟩
  rintro rfl
  unfold skipHexPrefix
  refine if_neg ?_
  rintro ⟨-, hx, -⟩
  have hsnd : ∀ a, (['0'] ++ (g ++ ',' :: s))[1]? = some a → (g ++ ',' :: s).head? = some a := by
    intro a ha
    rw [List.head?_eq_getElem?]
    simpa using ha
  exact hx.elim (fun hx => (hhead _ (hsnd _ hx)).2.1 rfl) fun hx => (hhead _ (hsnd _ hx)).2.2 rfl

theorem hexStops_nil {t : List Char} : HexStops t [] :=
  ⟨stops_nil, fun h => by rw [h]; rfl⟩

theorem hexStops_paren {t : List Char} : HexStops t [')'] :=
  ⟨stops_cons (by decide), fun h => by rw [h]; rfl⟩

theorem span_digitless {t : List Char} (hpre : Digitless pre) (h : Hexnum t n)
    (post : List Char) :
    (pre ++ (t ++ post)).takeWhile (fun c => !isDigit 16 c) = pre
      ∧ (pre ++ (t ++ post)).dropWhile (fun c => !isDigit 16 c) = t ++ post := by
  refine takeWhile_append_stop (fun c hc => by rw [hpre c hc]; rfl) fun a ha => ?_
  obtain ⟨c, tl, rfl, hc⟩ := h.head
  obtain rfl : c = a := by simpa using ha
  rw [hc]
  rfl

theorem span_comma {g : List Char} (hg : Blanks g) : (g ++ ',' :: s).takeWhile isblank = g
    ∧ (g ++ ',' :: s).dropWhile isblank = ',' :: s := by
  refine takeWhile_append_stop hg fun a ha => ?_
  obtain rfl : ',' = a := by simpa using ha
  decide

/-- There is one way to read two numbers. -/
theorem Reads.two_unique (h : Reads (.two c d) pre gap post s)
    (h' : Reads (.two c' d') pre' gap' post' s) :
    clamp c = clamp c' ∧ clamp d = clamp d' ∧ pre = pre' ∧ gap = gap' ∧ post = post' := by
  obtain ⟨hpre, t₁, g₂, g₃, t₂, rfl, rfl, ht₁, hg₂, hg₃, ht₂, hstop⟩ := h
  obtain ⟨hpre', u₁, k₂, k₃, u₂, hs, rfl, hu₁, hk₂, hk₃, hu₂, hstop'⟩ := h'
  -- from the head on, each piece is what a scan of the same string stops at
  have hcut := span_digitless hpre ht₁ (g₂ ++ ',' :: (g₃ ++ (t₂ ++ post)))
  have hcut' := span_digitless hpre' hu₁ (k₂ ++ ',' :: (k₃ ++ (u₂ ++ post')))
  rw [hs] at hcut
  have hrest := hcut.2.symm.trans hcut'.2
  have hread := (strtoull_hexnum ht₁ (hexStops_comma (s := g₃ ++ (t₂ ++ post)) hg₂)).1
  rw [hrest, (strtoull_hexnum hu₁ (hexStops_comma hk₂)).1] at hread
  obtain ⟨hc, hX⟩ := Prod.mk.inj hread
  have hcomma := span_comma (s := g₃ ++ (t₂ ++ post)) hg₂
  have hcomma' := span_comma (s := k₃ ++ (u₂ ++ post')) hk₂
  rw [← hX] at hcomma
  have hY : g₃ ++ (t₂ ++ post) = k₃ ++ (u₂ ++ post') :=
    (List.cons.inj (hcomma.2.symm.trans hcomma'.2)).2
  have hblank := takeWhile_append_stop hg₃ (Hexnum.not_blank ht₂ post)
  have hblank' := takeWhile_append_stop hk₃ (Hexnum.not_blank hu₂ post')
  rw [hY] at hblank
  have hZ := hblank.2.symm.trans hblank'.2
  have hlast := (strtoull_hexnum ht₂ hstop).1
  rw [hZ, (strtoull_hexnum hu₂ hstop').1] at hlast
  obtain ⟨hd, hpost⟩ := Prod.mk.inj hlast
  refine ⟨hc.symm, hd.symm, hcut.1.symm.trans hcut'.1, ?_, hpost.symm⟩
  rw [← hcomma.1, hcomma'.1, ← hblank.1, hblank'.1]

/-- There is one way to read one number. -/
theorem Reads.one_unique (h : Reads (.one n) pre gap post s)
    (h' : Reads (.one n') pre' gap' post' s) :
    clamp n = clamp n' ∧ pre = pre' ∧ post = post' := by
  obtain ⟨-, hpre, t, rfl, ht, hstop⟩ := h
  obtain ⟨-, hpre', u, hs, hu, hstop'⟩ := h'
  have hcut := takeWhile_append_stop hpre (Hexnum.not_blank ht post)
  have hcut' := takeWhile_append_stop hpre' (Hexnum.not_blank hu post')
  rw [hs] at hcut
  have hread := (strtoull_hexnum ht hstop).1
  rw [hcut.2.symm.trans hcut'.2, (strtoull_hexnum hu hstop').1] at hread
  obtain ⟨hn, hpost⟩ := Prod.mk.inj hread
  exact ⟨hn.symm, hcut.1.symm.trans hcut'.1, hpost.symm⟩

/-! ### What the parser makes of the pieces -/

theorem parseCodeMask_reads {t g : List Char} (hpre : Digitless pre) (h : Hexnum t c)
    (hg : Blanks g) (hc : c < 2 ^ 64) :
    parseCodeMask (pre ++ (t ++ (g ++ ',' :: s))) = .ok (s, c) := by
  have hhead : (t ++ (g ++ ',' :: s)).head?.any (isDigit 16) = true := by
    obtain ⟨a, tl, rfl, ha⟩ := h.head
    simpa using ha
  have hnum := strToUint64_hexnum (g := []) (fun a ha => absurd ha List.not_mem_nil) h
    (hexStops_comma (s := s) hg)
  rw [if_neg (Nat.not_le.2 hc), List.nil_append, List.length_nil, Nat.zero_add] at hnum
  unfold parseCodeMask
  rw [skipToXdigit_append hpre hhead]
  simp only [bind, Except.bind, hnum, List.drop_left, (span_comma hg).2]
  rfl

/-- The first of two numbers stands before a comma. -/
theorem parseCodeMask_eq_ok (h : parseCodeMask s = .ok (post, c)) :
    ∃ pre t g, s = pre ++ (t ++ (g ++ ',' :: post)) ∧ Digitless pre ∧ Hexnum t c ∧ Blanks g
      ∧ c < 2 ^ 64 := by
  by_cases hless : Digitless s
  · rw [parseCodeMask_digitless hless] at h
    cases h
  · obtain ⟨pre, s', rfl, hpre, hhead⟩ := exists_skip hless
    unfold parseCodeMask at h
    rw [skipToXdigit_append hpre hhead] at h
    rcases hnum : strToUint64 s' 16 with e | ⟨offset, cmask⟩
    · simp only [bind, Except.bind, hnum] at h
      cases h
    · obtain ⟨g₀, t, rest, rfl, hg₀, ht, hstop, hlt, rfl⟩ := strToUint64_eq_ok hnum
      simp only [bind, Except.bind, hnum] at h
      -- the scan stopped at a digit, so there are no blanks before the number
      obtain rfl : g₀ = [] := by
        rcases g₀ with _ | ⟨a, g₀⟩
        · rfl
        · rw [List.cons_append, List.head?_cons, Option.any_some] at hhead
          rw [hg₀.digitless a List.mem_cons_self] at hhead
          cases hhead
      rw [List.length_nil, Nat.zero_add, List.nil_append, List.drop_left] at h
      split at h
      · rename_i rest' heq
        obtain ⟨rfl, rfl⟩ := Prod.mk.inj (Except.ok.inj h)
        refine ⟨pre, t, rest.takeWhile isblank, ?_, hpre, ht, fun a ha => List.mem_takeWhile_imp ha,
          hlt⟩
        rw [← heq, List.takeWhile_append_dropWhile, List.nil_append]
      · cases h

theorem Reads.dual (h : Reads (.two c d) pre gap post s) : Dual s := by
  obtain ⟨-, t₁, g₂, g₃, t₂, rfl, -⟩ := h
  exact Or.inr (by simp)

theorem parseMaskSet_two (h : Reads (.two c d) pre gap post s) (hc : c < 2 ^ 64)
    (hd : d < 2 ^ 64) : ∃ k, parseMaskSet s (strchr ',' s).isSome 0 = .ok (k, d, c) := by
  rw [parseMaskSet_dual h.dual]
  obtain ⟨hpre, t₁, g₂, g₃, t₂, rfl, -, ht₁, hg₂, hg₃, ht₂, hstop⟩ := h
  rw [parseCodeMask_reads hpre ht₁ hg₂ hc, Except.bind, strToUint64_hexnum hg₃ ht₂ hstop,
    if_neg (Nat.not_le.2 hd)]
  exact ⟨_, rfl⟩

theorem parseMaskSet_one (hs : ¬ Dual s) (h : Reads (.one n) pre gap post s) (hn : n < 2 ^ 64) :
    ∃ k, parseMaskSet s (strchr ',' s).isSome 0 = .ok (k, n, 0) := by
  rw [parseMaskSet_single hs]
  obtain ⟨-, hpre, t, rfl, ht, hstop⟩ := h
  rw [strToUint64_hexnum hpre ht hstop, if_neg (Nat.not_le.2 hn)]
  exact ⟨_, rfl⟩

/-- What the parser accepts has the pieces it looks for. -/
theorem parseMaskSet_eq_ok (h : parseMaskSet s (strchr ',' s).isSome 0 = .ok (k, n, c)) :
    n < 2 ^ 64 ∧ c < 2 ^ 64 ∧
      ((¬ Dual s ∧ c = 0 ∧ ∃ pre post, Reads (.one n) pre [] post s)
        ∨ ∃ pre gap post, Reads (.two c n) pre gap post s) := by
  by_cases hs : Dual s
  · rw [parseMaskSet_dual hs] at h
    rcases hcode : parseCodeMask s with e | ⟨s', c'⟩
    · rw [hcode] at h
      cases h
    · rw [hcode, Except.bind] at h
      rcases hnum : strToUint64 s' 16 with e | ⟨offset, n'⟩
      · rw [hnum] at h
        cases h
      · rw [hnum, Except.map, Except.ok.injEq, Prod.mk.injEq, Prod.mk.injEq] at h
        obtain ⟨-, rfl, rfl⟩ := h
        obtain ⟨pre, t, g, rfl, hpre, ht, hg, hc⟩ := parseCodeMask_eq_ok hcode
        obtain ⟨g', t', rest, rfl, hg', ht', hstop, hn, -⟩ := strToUint64_eq_ok hnum
        exact ⟨hn, hc, Or.inr ⟨pre, _, rest, hpre, t, g, g', t', rfl, rfl, ht, hg, hg', ht', hstop⟩⟩
  · rw [parseMaskSet_single hs] at h
    rcases hnum : strToUint64 s 16 with e | ⟨offset, n'⟩
    · rw [hnum] at h
      cases h
    · rw [hnum, Except.map, Except.ok.injEq, Prod.mk.injEq, Prod.mk.injEq] at h
      obtain ⟨-, rfl, rfl⟩ := h
      obtain ⟨g, t, rest, rfl, hg, ht, hstop, hn, -⟩ := strToUint64_eq_ok hnum
      exact ⟨hn, by decide, Or.inl ⟨hs, rfl, g, rest, rfl, hg, t, rfl, ht, hstop⟩⟩

/-! ### The grammar in pieces -/

theorem gap_append {g g' : List Char} :
    Gap blanks (g ++ g') ↔ Gap blanks g ∧ Gap blanks g' := by
  unfold Gap Blanks
  simp only [List.mem_append, or_imp, forall_and, List.append_eq_nil_iff]
  tauto

/-- One number, with nothing after it. -/
theorem written_one_iff :
    Written blanks (.one n) s ↔ ∃ pre, Reads (.one n) pre [] [] s ∧ Gap blanks pre := by
  constructor
  · rintro ⟨hg, ht⟩
    exact ⟨_, ⟨rfl, hg.1, _, by rw [List.append_nil], ht, hexStops_nil⟩, hg⟩
  · rintro ⟨pre, ⟨-, -, t, rfl, ht, -⟩, hg⟩
    rw [List.append_nil]
    exact .one hg ht

/-- Two numbers, with nothing around them or parentheses. -/
theorem written_two_iff : Written blanks (.two c d) s
    ↔ ∃ pre gap post, Reads (.two c d) pre gap post s ∧ Gap blanks gap
      ∧ Enclosed blanks pre post := by
  constructor
  · intro h
    cases h with
    | two hg₁ ht₁ hg₂ hg₃ ht₂ =>
      refine ⟨_, _, [], ⟨hg₁.1.digitless, _, _, _, _, ?_, rfl, ht₁, hg₂.1, hg₃.1, ht₂,
        hexStops_nil⟩, gap_append.2 ⟨hg₂, hg₃⟩, Or.inl ⟨hg₁, rfl⟩⟩
      rw [List.append_nil]
    | @paren g₀ g₁ _ _ _ _ _ _ hg₀ hg₁ ht₁ hg₂ hg₃ ht₂ =>
      refine ⟨g₀ ++ '(' :: g₁, _, [')'], ⟨?_, _, _, _, _, ?_, rfl, ht₁, hg₂.1, hg₃.1, ht₂,
        hexStops_paren⟩, gap_append.2 ⟨hg₂, hg₃⟩, Or.inr ⟨g₀, g₁, hg₀, hg₁, rfl, rfl⟩⟩
      · refine digitless_append.2 ⟨hg₀.1.digitless, fun a ha => ?_⟩
        rcases List.mem_cons.1 ha with rfl | ha
        · decide
        · exact hg₁.1.digitless a ha
      · rw [List.append_assoc, List.cons_append]
  · rintro ⟨pre, gap, post, ⟨-, t₁, g₂, g₃, t₂, rfl, rfl, ht₁, hg₂, hg₃, ht₂, -⟩, hgap, henc⟩
    obtain ⟨hgap₂, hgap₃⟩ := gap_append.1 hgap
    rcases henc with ⟨hpre, rfl⟩ | ⟨g, g', hg, hg', rfl, rfl⟩
    · rw [List.append_nil]
      exact .two hpre ht₁ hgap₂ hgap₃ ht₂
    · rw [List.append_assoc, List.cons_append]
      exact .paren hg hg' ht₁ hgap₂ hgap₃ ht₂

/-- One number is not two. -/
theorem not_dual_of_written (h : Written blanks (.one n) s) : ¬ Dual s := by
  cases h with
  | @one g t _ hg ht =>
    have hplain : ∀ a ∈ g ++ t, isblank a = true ∨ isDigit 16 a = true ∨ a = 'x' ∨ a = 'X' := by
      intro a ha
      rcases List.mem_append.1 ha with ha | ha
      · exact Or.inl (hg.1 a ha)
      · right
        obtain ⟨ds, rfl | rfl | rfl, hds⟩ := ht
        · exact Or.inl (hds.digit a ha)
        all_goals
          rcases List.mem_cons.1 ha with rfl | ha
          · exact Or.inl (by decide)
          · rcases List.mem_cons.1 ha with rfl | ha
            · simp
            · exact Or.inl (hds.digit a ha)
    rintro (hhead | hcomma)
    · have := hplain '(' (List.mem_of_mem_head? hhead)
      revert this
      decide
    · have := hplain ',' hcomma
      revert this
      decide

end Pieces

/-! ## What is accepted -/

/-- The mask the parser wants in every definition, and the code mask of the pair it takes. -/
def Accepted (ca : RdtCfg) (mask code : Nat) : Prop :=
  Contiguous mask ∧ mask < 2 ^ 64
    ∧ (code = 0 ∧ ca.width ≠ none ∨ ca.width = some 64 ∧ Contiguous code ∧ code < 2 ^ 64)

/-- What the parser makes of the definition. -/
def stored : RdtCfg → Nat → Nat → RdtCfg
  | .l2 ca, mask, _ => .l2 { ca with waysMask := BitVec.ofNat 32 mask }
  | .l3 ca, mask, code =>
    if code ≠ 0 then .l3 { ca with u := .s (BitVec.ofNat 64 mask) (BitVec.ofNat 64 code) }
    else .l3 { ca with u := setWaysMask ca.u (BitVec.ofNat 64 mask) }
  | .mba ca, _, _ => .mba ca

section Accept

variable {blanks : Bool} {param : List Char} {ca ca' : RdtCfg} {e : Stop} {k mask code : Nat}

theorem rdtCaStrToCbm_error (hca : ca.width ≠ none)
    (h : parseMaskSet param (strchr ',' param).isSome 0 = .error e) :
    rdtCaStrToCbm param ca = .error e := by
  cases ca with
  | mba ca => exact absurd rfl hca
  | l2 ca =>
    simp only [rdtCaStrToCbm, h]
    rfl
  | l3 ca =>
    simp only [rdtCaStrToCbm, h]
    rfl

/-- A parsed pair of masks is stored if it is accepted, and refused otherwise. -/
theorem rdtCaStrToCbm_ok [Decidable (Accepted ca mask code)] (hca : ca.width ≠ none)
    (hmask : mask < 2 ^ 64) (hcode : code < 2 ^ 64)
    (h : parseMaskSet param (strchr ',' param).isSome 0 = .ok (k, mask, code)) :
    rdtCaStrToCbm param ca
      = if Accepted ca mask code then .ok (stored ca mask code) else .error .einval := by
  have hcont : ∀ n < 2 ^ 64, isContiguous (BitVec.ofNat 64 n) = false ↔ ¬ Contiguous n :=
    fun n hn => by rw [← isContiguous_ofNat hn, Bool.not_eq_true]
  by_cases hm : Contiguous mask
  · have hgo : ¬ (mask = 0 ∨ isContiguous (BitVec.ofNat 64 mask) = false) := by
      rw [hcont mask hmask]
      exact fun h => h.elim hm.ne_zero fun h => h hm
    cases ca with
    | mba ca => exact absurd rfl hca
    | l2 ca =>
      simp only [rdtCaStrToCbm, h, bind, Except.bind, pure, Except.pure, hgo, if_false]
      by_cases hc : code = 0
      · have hacc : Accepted (.l2 ca) mask code := ⟨hm, hmask, Or.inl ⟨hc, hca⟩⟩
        rw [if_pos hacc, if_neg (not_not.2 hc)]
        rfl
      · have hacc : ¬ Accepted (.l2 ca) mask code := fun hacc =>
          hacc.2.2.elim (fun h => hc h.1) fun h => absurd h.1 (by simp [RdtCfg.width])
        rw [if_neg hacc, if_pos hc]
        rfl
    | l3 ca =>
      simp only [rdtCaStrToCbm, h, bind, Except.bind, pure, Except.pure, hgo, if_false]
      by_cases hc : code = 0
      · have hacc : Accepted (.l3 ca) mask code := ⟨hm, hmask, Or.inl ⟨hc, hca⟩⟩
        rw [if_pos hacc, if_neg (fun h => h.1 hc), stored, if_neg (not_not.2 hc)]
        simp only [hc]
        rfl
      · by_cases hcc : Contiguous code
        · have hacc : Accepted (.l3 ca) mask code := ⟨hm, hmask, Or.inr ⟨rfl, hcc, hcode⟩⟩
          rw [if_pos hacc, if_neg (fun h => (hcont code hcode).1 h.2 hcc), stored, if_pos hc,
            if_pos hc]
        · have hacc : ¬ Accepted (.l3 ca) mask code := fun hacc =>
            hacc.2.2.elim (fun h => hc h.1) fun h => hcc h.2.1
          rw [if_neg hacc, if_pos ⟨hc, (hcont code hcode).2 hcc⟩]
          rfl
  · have hacc : ¬ Accepted ca mask code := fun hacc => hm hacc.1
    have hstop : mask = 0 ∨ isContiguous (BitVec.ofNat 64 mask) = false :=
      Or.inr ((hcont mask hmask).2 hm)
    rw [if_neg hacc]
    cases ca with
    | mba ca => exact absurd rfl hca
    | l2 ca =>
      simp only [rdtCaStrToCbm, h, bind, Except.bind, pure, Except.pure, hstop, if_true]
      rfl
    | l3 ca =>
      simp only [rdtCaStrToCbm, h, bind, Except.bind, pure, Except.pure, hstop, if_true]
      rfl

theorem RdtCfg.width_cases (hca : ca.width ≠ none) :
    ca.width = some 32 ∨ ca.width = some 64 := by
  cases ca with
  | l2 ca => exact Or.inl rfl
  | l3 ca => exact Or.inr rfl
  | mba ca => exact absurd rfl hca

theorem RdtCfg.lt_of_width {w n : Nat} (h : ca.width = some w) (hn : n < 2 ^ w) : n < 2 ^ 64 := by
  have hle : w ≤ 64 := by
    have hca : ca.width ≠ none := by
      rw [h]
      simp
    rcases RdtCfg.width_cases hca with hw | hw
    all_goals
      rw [hw, Option.some.injEq] at h
      omega
  exact Nat.lt_of_lt_of_le hn (Nat.pow_le_pow_right Nat.two_pos hle)

theorem storedIn_one {w : Nat} (h : ca.width = some w) (hmask : mask < 2 ^ w) :
    (Masks.one mask).StoredIn ca (stored ca mask 0) := by
  cases ca with
  | mba ca => cases h
  | l2 ca =>
    obtain rfl : 32 = w := Option.some.inj h
    exact ⟨by rw [BitVec.toNat_ofNat, Nat.mod_eq_of_lt hmask], rfl⟩
  | l3 ca =>
    obtain rfl : 64 = w := Option.some.inj h
    obtain ⟨classId, _ | _⟩ := ca
    all_goals
      refine ⟨?_, rfl, rfl⟩
      simp only [setWaysMask, L3Masks.dataMask, BitVec.toNat_ofNat, Nat.mod_eq_of_lt hmask]

theorem storedIn_two (h : ca.width = some 64) (hne : code ≠ 0) (hcode : code < 2 ^ 64)
    (hmask : mask < 2 ^ 64) : (Masks.two code mask).StoredIn ca (stored ca mask code) := by
  cases ca with
  | mba ca => cases h
  | l2 ca => simp [RdtCfg.width] at h
  | l3 ca =>
    rw [stored, if_pos hne]
    refine ⟨rfl, ?_, ?_, rfl⟩
    · simp only [L3Masks.codeMask, BitVec.toNat_ofNat, Nat.mod_eq_of_lt hcode]
    · simp only [L3Masks.dataMask, BitVec.toNat_ofNat, Nat.mod_eq_of_lt hmask]

/-- What is parsed and accepted comes back. -/
theorem rdtCaStrToCbm_accepted (h : Accepted ca mask code)
    (hparse : parseMaskSet param (strchr ',' param).isSome 0 = .ok (k, mask, code)) :
    rdtCaStrToCbm param ca = .ok (stored ca mask code) := by
  classical
  have hca : ca.width ≠ none := by
    rcases h.2.2 with hc | hc
    · exact hc.2
    · rw [hc.1]
      simp
  have hcode : code < 2 ^ 64 := h.2.2.elim (fun hc => hc.1 ▸ by decide) fun hc => hc.2.2
  rw [rdtCaStrToCbm_ok hca h.2.1 hcode hparse, if_pos h]

/-- What comes back was parsed and accepted. -/
theorem rdtCaStrToCbm_eq_ok (h : rdtCaStrToCbm param ca = .ok ca') :
    ∃ k mask code, parseMaskSet param (strchr ',' param).isSome 0 = .ok (k, mask, code)
      ∧ Accepted ca mask code ∧ ca' = stored ca mask code := by
  classical
  have hca : ca.width ≠ none := by
    rintro hca
    cases ca with
    | mba ca => cases h
    | l2 ca => cases hca
    | l3 ca => cases hca
  rcases hparse : parseMaskSet param (strchr ',' param).isSome 0 with e | ⟨k, mask, code⟩
  · rw [rdtCaStrToCbm_error hca hparse] at h
    cases h
  · obtain ⟨hmask, hcode, -⟩ := parseMaskSet_eq_ok hparse
    rw [rdtCaStrToCbm_ok hca hmask hcode hparse] at h
    split_ifs at h with hacc
    exact ⟨k, mask, code, rfl, hacc, (Except.ok.inj h).symm⟩

/-- A string of the grammar with masks that fit is accepted. -/
theorem rdtCaStrToCbm_written {m : Masks} (h : Written blanks m param) (hfits : m.Fits ca) :
    ∃ ca', rdtCaStrToCbm param ca = .ok ca' := by
  cases m with
  | one n =>
    obtain ⟨hcont, w, hw, hn⟩ := hfits
    have hn' := RdtCfg.lt_of_width hw hn
    obtain ⟨pre, hreads, -⟩ := written_one_iff.1 h
    obtain ⟨k, hparse⟩ := parseMaskSet_one (not_dual_of_written h) hreads hn'
    exact ⟨_, rdtCaStrToCbm_accepted ⟨hcont, hn', Or.inl ⟨rfl, by rw [hw]; simp⟩⟩ hparse⟩
  | two c d =>
    obtain ⟨hw, ⟨hcc, hc⟩, hcd, hd⟩ := hfits
    obtain ⟨pre, gap, post, hreads, -⟩ := written_two_iff.1 h
    obtain ⟨k, hparse⟩ := parseMaskSet_two hreads hc hd
    exact ⟨_, rdtCaStrToCbm_accepted ⟨hcd, hd, Or.inr ⟨hw, hcc, hc⟩⟩ hparse⟩

/-- On every other string the parser goes wrong. -/
theorem not_meets_of_misread (h : Misread blanks param ca) : ¬ Meets blanks param ca := by
  intro hmeets
  cases h with
  | overread hca hdual hless =>
    refine hmeets.inBounds (rdtCaStrToCbm_error hca ?_)
    rw [parseMaskSet_dual hdual, parseCodeMask_digitless hless]
    rfl
  | @one w n pre post hw hdual hreads hcont hn hbad =>
    obtain ⟨k, hparse⟩ := parseMaskSet_one hdual hreads hn
    have hacc : Accepted ca n 0 := ⟨hcont, hn, Or.inl ⟨rfl, by rw [hw]; simp⟩⟩
    obtain ⟨m, hwritten, hfits, -⟩ := hmeets.sound _ (rdtCaStrToCbm_accepted hacc hparse)
    cases m with
    | two c d =>
      obtain ⟨_, _, _, htwo, -⟩ := written_two_iff.1 hwritten
      exact hdual htwo.dual
    | one n' =>
      obtain ⟨-, w', hw', hn'⟩ := hfits
      obtain ⟨pre', hone, hgap⟩ := written_one_iff.1 hwritten
      obtain ⟨hclamp, rfl, rfl⟩ := hreads.one_unique hone
      rw [clamp_of_lt hn, clamp_of_lt (RdtCfg.lt_of_width hw' hn')] at hclamp
      rw [hw, Option.some.injEq] at hw'
      exact hbad ⟨hgap, rfl, by rw [hclamp, hw']; exact hn'⟩
  | @two c d pre gap post hca hreads hcd hd hc hbad =>
    have hc' : c < 2 ^ 64 := hc.elim (fun hc => hc ▸ by decide) fun hc => hc.2.2
    obtain ⟨k, hparse⟩ := parseMaskSet_two hreads hc' hd
    have hacc : Accepted ca d c := ⟨hcd, hd, hc.imp (fun hc => ⟨hc, hca⟩) id⟩
    obtain ⟨m, hwritten, hfits, -⟩ := hmeets.sound _ (rdtCaStrToCbm_accepted hacc hparse)
    cases m with
    | one n => exact not_dual_of_written hwritten hreads.dual
    | two c' d' =>
      obtain ⟨pre', gap', post', htwo, hgap, henc⟩ := written_two_iff.1 hwritten
      obtain ⟨hclamp, -, rfl, rfl, rfl⟩ := hreads.two_unique htwo
      rw [clamp_of_lt hc', clamp_of_lt hfits.2.1.2] at hclamp
      refine hbad.elim (fun h0 => hfits.2.1.1.ne_zero ?_) fun hbad => hbad ⟨hgap, henc⟩
      rw [← hclamp, h0]

/-- The parser of a cache definition does what is asked of it exactly on the strings that are not
misread, whether the grammar has blanks or not. -/
theorem rdtCaStrToCbm_meets_iff (blanks : Bool) (param : List Char) (ca : RdtCfg) :
    Meets blanks param ca ↔ ¬ Misread blanks param ca := by
  refine ⟨fun h hbad => not_meets_of_misread hbad h, fun h => ⟨fun ca' hok => ?_,
    fun m hm hfits => rdtCaStrToCbm_written hm hfits, fun hover => ?_⟩⟩
  · obtain ⟨k, mask, code, hparse, hacc, rfl⟩ := rdtCaStrToCbm_eq_ok hok
    have hca : ca.width ≠ none := fun hca => hacc.2.2.elim (fun hc => hc.2 hca) fun hc => by
      rw [hca] at hc
      cases hc.1
    obtain ⟨w, hw⟩ := Option.ne_none_iff_exists'.1 hca
    obtain ⟨-, -, ⟨hdual, rfl, pre, post, hreads⟩ | ⟨pre, gap, post, hreads⟩⟩ :=
      parseMaskSet_eq_ok hparse
    · -- one mask: nothing follows it, and it fits
      obtain ⟨hgap, rfl, hn⟩ : Gap blanks pre ∧ post = [] ∧ mask < 2 ^ w := by
        by_contra hbad
        exact h (.one hw hdual hreads hacc.1 hacc.2.1 hbad)
      exact ⟨.one mask, written_one_iff.2 ⟨pre, hreads, hgap⟩, ⟨hacc.1, w, hw, hn⟩,
        storedIn_one hw hn⟩
    · -- two masks: the code mask is one, and nothing else stands around them
      have hgood : code ≠ 0 ∧ Gap blanks gap ∧ Enclosed blanks pre post := by
        by_contra hbad
        refine h (.two hca hreads hacc.1 hacc.2.1 (hacc.2.2.imp And.left id) ?_)
        by_contra hneither
        rw [not_or, not_not] at hneither
        exact hbad hneither
      obtain ⟨hne, hgap, henc⟩ := hgood
      obtain ⟨hw64, hcc, hc⟩ := hacc.2.2.resolve_left fun hc => hne hc.1
      exact ⟨.two code mask, written_two_iff.2 ⟨pre, gap, post, hreads, hgap, henc⟩,
        ⟨hw64, ⟨hcc, hc⟩, hacc.1, hacc.2.1⟩, storedIn_two hw64 hne hc hacc.2.1⟩
  · classical
    have hca : ca.width ≠ none := by
      rintro hca
      cases ca with
      | mba ca => cases hover
      | l2 ca => cases hca
      | l3 ca => cases hca
    rcases hparse : parseMaskSet param (strchr ',' param).isSome 0 with e | ⟨k, mask, code⟩
    · rw [rdtCaStrToCbm_error hca hparse, Except.error.injEq] at hover
      subst hover
      obtain ⟨hdual, hless⟩ := (parseMaskSet_overread_iff param 0).1 hparse
      exact h (.overread hca hdual hless)
    · obtain ⟨hmask, hcode, -⟩ := parseMaskSet_eq_ok hparse
      rw [rdtCaStrToCbm_ok hca hmask hcode hparse] at hover
      split_ifs at hover
      cases hover

/-- Text after a mask is passed over. -/
theorem rdtCaStrToCbm_trailing :
    rdtCaStrToCbm ['f', 'f', 'z', 'z'] (.l3 ⟨1, .ways 0⟩) = .ok (.l3 ⟨1, .ways 0xff⟩)
      ∧ ¬ Meets true ['f', 'f', 'z', 'z'] (.l3 ⟨1, .ways 0⟩)
      ∧ ¬ Meets false ['f', 'f', 'z', 'z'] (.l3 ⟨1, .ways 0⟩) := by
  have hnum : Hexnum ['f', 'f'] 0xff := 
    ⟨_, Or.inl rfl, by simp, List.all_eq_true.1 (by decide), by decide⟩
  have hstop : HexStops ['f', 'f'] ['z', 'z'] := ⟨stops_cons (by decide), by simp⟩
  have hreads : Reads (.one 0xff) [] [] ['z', 'z'] ['f', 'f', 'z', 'z'] :=
    ⟨rfl, by simp [Blanks], _, rfl, hnum, hstop⟩
  have hcont : Contiguous 0xff := (isContiguous_ofNat (by decide)).1 (by decide +kernel)
  have hsingle : ¬ Dual ['f', 'f', 'z', 'z'] := by simp [Dual]
  have hbad : ∀ blanks, Misread blanks ['f', 'f', 'z', 'z'] (.l3 ⟨1, .ways 0⟩) := fun blanks =>
    .one rfl hsingle hreads hcont (by decide) fun h => by simp at h
  exact ⟨by decide +kernel, not_meets_of_misread (hbad true), not_meets_of_misread (hbad false)⟩

end Accept

end Pqos.Rdt
