import Pqos.Resctrl
import Mathlib.Data.Nat.Digits.Defs

/-!
# CPU masks as text

A mask is read from its text a digit at a time, the lowest first, so what is read is the number the
digits spell. The writer spells the mask in full, with the digits of every byte, but the reader's
buffer does not hold that much.
-/

namespace Pqos

open Prog

namespace CpuMask

variable {mask : CpuMask} {lcore k idx : Nat} {b : BitVec 8}

/-! ## Bits and bytes -/

theorem item_eq (h : lcore < 4096) : item lcore = 511 - lcore / 8 := by
  unfold item
  omega

theorem get_eq (h : lcore < 4096) :
    mask.get lcore = (mask.tab[511 - lcore / 8]?.getD 0).getLsbD (lcore % 8) := by
  rw [get, item_eq h]

theorem get_setByte (mask : CpuMask) (hl : lcore < 4096) (hi : idx < 512) :
    (CpuMask.mk (mask.tab.setIfInBounds idx b)).get lcore
      = if 511 - lcore / 8 = idx then b.getLsbD (lcore % 8) else mask.get lcore := by
  rw [get_eq hl, get_eq hl, Vector.getElem?_setIfInBounds]
  by_cases h : idx = 511 - lcore / 8
  · rw [if_pos h, if_pos hi, if_pos h.symm, Option.getD_some]
  · rw [if_neg h, if_neg (Ne.symm h)]

theorem get_orByte (mask : CpuMask) (hl : lcore < 4096) (hi : idx < 512) :
    (mask.orByte idx b).get lcore
      = (mask.get lcore || (decide (511 - lcore / 8 = idx) && b.getLsbD (lcore % 8))) := by
  rw [orByte, get_setByte mask hl hi]
  by_cases h : 511 - lcore / 8 = idx
  · rw [if_pos h, BitVec.getLsbD_or, ← h, ← get_eq hl]
    simp
  · rw [if_neg h]
    simp [h]

/-- Setting a CPU's bit sets that bit and no other. -/
theorem get_set (mask : CpuMask) (hl : lcore < 4096) (hk : k < 4096) :
    (mask.set lcore).get k = (mask.get k || decide (k = lcore)) := by
  rw [set, item_eq hl, get_orByte mask hk (by omega)]
  congr 1
  rw [BitVec.getLsbD_shiftLeft, BitVec.getLsbD_one, Bool.eq_iff_iff]
  simp only [Bool.and_eq_true, decide_eq_true_eq, Bool.not_eq_true', decide_eq_false_iff_not]
  omega

theorem get_empty : empty.get k = false := by
  unfold get empty
  rw [Vector.getElem?_replicate]
  split_ifs <;> simp

theorem get_foldl_set (hk : k < 4096) :
    ∀ {l : List Nat} {mask : CpuMask}, (∀ lcore ∈ l, lcore < 4096) →
      (l.foldl CpuMask.set mask).get k = (mask.get k || decide (k ∈ l))
  | [], mask, _ => by simp
  | lcore :: l, mask, hl => by
    rw [List.foldl_cons, get_foldl_set hk fun a ha => hl a (List.mem_cons_of_mem _ ha),
      get_set mask (hl lcore List.mem_cons_self) hk]
    simp [Bool.or_assoc]

/-- With CPUs added to the mask of a class, these are the class's and the others are as before; a
CPU that is left out of the mask would go to the class 0. -/
theorem class_foldl_set {l : List Nat} {old classId : Nat} (hk : k < 4096)
    (hl : ∀ lcore ∈ l, lcore < 4096) (hmask : mask.get k = true ↔ old = classId) :
    (if (l.foldl CpuMask.set mask).get k = true then classId
        else if old = classId then 0 else old) = if k ∈ l then classId else old := by
  rw [get_foldl_set hk hl]
  by_cases hmem : k ∈ l
  · simp [hmem]
  · simp only [hmem, decide_false, Bool.or_false, hmask, if_false]
    split_ifs with heq <;> simp [heq]

/-- A mask is the set of CPUs in it. -/
theorem ext_get {mask mask' : CpuMask} (h : ∀ lcore < 4096, mask.get lcore = mask'.get lcore) :
    mask = mask' := by
  obtain ⟨tab⟩ := mask
  obtain ⟨tab'⟩ := mask'
  congr 1
  refine Vector.ext fun i hi => BitVec.eq_of_getLsbD_eq fun j hj => ?_
  have hbit := h (8 * (511 - i) + j) (by omega)
  have hbyte : 511 - (8 * (511 - i) + j) / 8 = i := by omega
  have hmod : (8 * (511 - i) + j) % 8 = j := by omega
  rw [get_eq (by omega), get_eq (by omega), hbyte, hmod] at hbit
  simpa [hi] using hbit

/-! ## Reading -/

/-- The hexadecimal digits of a text, the highest first. -/
def digits (text : List Char) : List Nat := text.filterMap hexNum

/-- The number that the digits of a text spell, whatever stands between them. -/
def hexValue (text : List Char) : Nat := Nat.ofDigits 16 (digits text).reverse

theorem hexNum_lt {c : Char} {n : Nat} (h : hexNum c = some n) : n < 16 := by
  unfold hexNum at h
  simp only [Char.le_def, UInt32.le_iff_toNat_le] at h
  split_ifs at h with h₁ h₂ h₃ <;> obtain rfl := Option.some.inj h
  · have : c.toNat ≤ 57 := h₁.2
    omega
  · have : c.toNat ≤ 102 := h₂.2
    omega
  · have : c.toNat ≤ 70 := h₃.2
    omega

theorem mem_digits {text : List Char} {n : Nat} (h : n ∈ digits text) : n < 16 := by
  obtain ⟨c, -, hc⟩ := List.mem_filterMap.1 h
  exact hexNum_lt hc

theorem hexValue_lt (text : List Char) : hexValue text < 16 ^ (digits text).length := by
  have h := Nat.ofDigits_lt_base_pow_length (b := 16) (l := (digits text).reverse) (by decide)
    fun n hn => mem_digits (List.mem_reverse.1 hn)
  rwa [List.length_reverse] at h

/-- The next digit goes where the cursor stands. -/
def Cursor.place (n : Nat) (cur : Cursor) : Cursor :=
  if cur.high then ⟨cur.mask.orByte cur.idx (BitVec.ofNat 8 n <<< 4), false, cur.idx - 1⟩
  else ⟨⟨cur.mask.tab.setIfInBounds cur.idx (BitVec.ofNat 8 n)⟩, true, cur.idx⟩

theorem foldr_digit (text : List Char) (cur : Cursor) :
    text.foldr Cursor.digit cur = (digits text).foldr Cursor.place cur := by
  induction text with
  | nil => rfl
  | cons c text ih =>
    rw [List.foldr_cons, ih]
    unfold digits Cursor.digit
    rw [List.filterMap_cons]
    cases hexNum c <;> rfl

/-- Before the digit in place `m` the mask is the number `v` of the digits below it. -/
structure Cursor.Reads (cur : Cursor) (m v : Nat) : Prop where
  lt : v < 2 ^ (4 * m)
  high : cur.high = decide (m % 2 = 1)
  idx : cur.idx = 511 - m / 2
  get : ∀ lcore < 4096, cur.mask.get lcore = v.testBit lcore

theorem Cursor.Reads.place {cur : Cursor} {m v n : Nat} (h : cur.Reads m v) (hm : m < 1024)
    (hn : n < 16) : (cur.place n).Reads (m + 1) (v + 16 ^ m * n) := by
  have hpow : 16 ^ m = 2 ^ (4 * m) := by rw [Nat.pow_mul]
  have hbit : ∀ i, (v + 16 ^ m * n).testBit i
      = if i < 4 * m then v.testBit i else n.testBit (i - 4 * m) := by
    intro i
    rw [hpow, Nat.add_comm, Nat.testBit_two_pow_mul_add n h.lt]
  have hold : ∀ {a b i : Nat}, a < 2 ^ b → b ≤ i → a.testBit i = false := fun ha hbi =>
    Nat.testBit_lt_two_pow (Nat.lt_of_lt_of_le ha (Nat.pow_le_pow_right Nat.two_pos hbi))
  have hn' : n < 2 ^ 4 := hn
  have hlt : v + 16 ^ m * n < 2 ^ (4 * (m + 1)) := by
    have : 2 ^ (4 * (m + 1)) = 2 ^ (4 * m) * 16 := by rw [Nat.mul_add, Nat.pow_add]
    have := h.lt
    rw [hpow]
    nlinarith
  unfold Cursor.place
  rw [h.high, h.idx]
  by_cases hodd : m % 2 = 1
  · -- the high half of a byte whose low half is there
    rw [decide_eq_true hodd, if_pos rfl]
    refine ⟨hlt, (decide_eq_false (by omega)).symm, by dsimp only; omega, fun i hi => ?_⟩
    rw [get_orByte _ hi (by omega), h.get i hi, hbit, BitVec.getLsbD_shiftLeft,
      BitVec.getLsbD_ofNat]
    by_cases hlow : i < 4 * m
    · have hoff : 511 - i / 8 = 511 - m / 2 → i % 8 < 4 := by clear hlt; omega
      rw [if_pos hlow]
      by_cases he : 511 - i / 8 = 511 - m / 2 <;> simp [he, hoff]
    · rw [if_neg hlow, hold h.lt (Nat.not_lt.1 hlow), Bool.false_or]
      by_cases hbyte : i < 4 * m + 4
      · have : 511 - i / 8 = 511 - m / 2 ∧ i % 8 < 8 ∧ ¬ i % 8 < 4 ∧ i % 8 - 4 = i - 4 * m
            ∧ i - 4 * m < 8 := by clear hlt; omega
        simp [this]
      · have : ¬ 511 - i / 8 = 511 - m / 2 := by clear hlt; omega
        have hhigh := hold hn' (i := i - 4 * m) (by omega)
        simp [this, hhigh]
  · -- the low half of a byte that has nothing in it
    rw [decide_eq_false hodd, if_neg Bool.false_ne_true]
    refine ⟨hlt, (decide_eq_true (by omega)).symm, by dsimp only; omega, fun i hi => ?_⟩
    rw [get_setByte _ hi (by omega), h.get i hi, hbit, BitVec.getLsbD_ofNat]
    clear hlt
    by_cases hlow : i < 4 * m
    · rw [if_neg (by omega), if_pos hlow]
    · rw [if_neg hlow]
      by_cases hbyte : i < 4 * m + 8
      · have hmod : i % 8 = i - 4 * m ∧ i - 4 * m < 8 := by omega
        rw [if_pos (by omega), hmod.1, decide_eq_true hmod.2, Bool.true_and]
      · rw [if_neg (by omega), hold h.lt (by omega), hold hn' (by omega)]

theorem foldr_place {l : List Nat} (hl : ∀ n ∈ l, n < 16) (hlen : l.length ≤ 1024) :
    (l.foldr Cursor.place ⟨empty, false, 511⟩).Reads l.length (Nat.ofDigits 16 l.reverse) := by
  induction l with
  | nil =>
    refine ⟨by decide, by decide, rfl, fun lcore _ => ?_⟩
    rw [List.foldr_nil, get_empty]
    simp
  | cons n l ih =>
    rw [List.length_cons] at hlen ⊢
    rw [List.foldr_cons, Nat.ofDigits_reverse_cons]
    have hread := ih (fun a ha => hl a (List.mem_cons_of_mem _ ha)) (by omega)
    exact hread.place (by omega) (hl n List.mem_cons_self)

theorem digits_length_le (text : List Char) : (digits text).length ≤ text.length :=
  List.length_filterMap_le _ _

/-- What is read is the number that the part of the text in the buffer spells. -/
theorem get_ofText (text : List Char) (h : lcore < 4096) :
    (ofText text).get lcore = (hexValue (text.take 511)).testBit lcore := by
  have hlen : (digits (text.take 511)).length ≤ 1024 := by
    have := digits_length_le (text.take 511)
    have := List.length_take_le 511 text
    omega
  rw [ofText, foldr_digit]
  exact (foldr_place (fun n hn => mem_digits hn) hlen).get lcore h

/-- The scan stands where the cursor does, and a place below 0 is left only after the last digit. -/
theorem scan_eq {text : List Char} (hlen : (digits text).length ≤ 1024) :
    scan text = some ⟨(text.foldr Cursor.digit ⟨empty, false, 511⟩).mask,
      (text.foldr Cursor.digit ⟨empty, false, 511⟩).high,
      511 - ((digits text).length / 2 : Nat)⟩ := by
  induction text with
  | nil => rfl
  | cons c text ih =>
    have hcons : scan (c :: text) = (scan text).bind (Scan.digit c) := rfl
    have hdigits : digits (c :: text) = (hexNum c).toList ++ digits text := by
      unfold digits
      rw [List.filterMap_cons]
      cases hexNum c <;> rfl
    rw [hdigits, List.length_append] at hlen
    have hread := foldr_place (l := digits text) (fun n hn => mem_digits hn) (by omega)
    rw [← foldr_digit] at hread
    rw [hcons, ih (by omega), Option.bind_some, hdigits, List.foldr_cons, List.length_append]
    generalize text.foldr Cursor.digit ⟨empty, false, 511⟩ = cur at hread
    unfold Scan.digit Cursor.digit
    cases hc : hexNum c with
    | none => simp
    | some n =>
      rw [hc, Option.toList_some, List.length_singleton] at hlen
      have hin : ¬ ((511 - ((digits text).length / 2 : Nat) : Int) < 0
          ∨ 511 < (511 - ((digits text).length / 2 : Nat) : Int)) := by omega
      have hnat : (511 - ((digits text).length / 2 : Nat) : Int).toNat
          = 511 - (digits text).length / 2 := by omega
      dsimp only
      rw [if_neg hin, hread.high, hread.idx, hnat, Option.toList_some, List.length_singleton]
      -- the place is left when the high half of a byte is there
      by_cases hodd : (digits text).length % 2 = 1
      · rw [decide_eq_true hodd, if_pos rfl, if_pos rfl]
        have hidx : (511 - ((digits text).length / 2 : Nat) : Int) - 1
            = 511 - ((1 + (digits text).length) / 2 : Nat) := by omega
        rw [hidx]
      · rw [decide_eq_false hodd, if_neg Bool.false_ne_true, if_neg Bool.false_ne_true]
        have hhalf : (1 + (digits text).length) / 2 = (digits text).length / 2 := by omega
        rw [hhalf]

/-! ## Writing -/

/-- The two digits of a byte. -/
def byteDigits (b : BitVec 8) : List Nat := [b.toNat / 16, b.toNat % 16]

theorem hexNum_digitChar : ∀ d < 16, hexNum (Nat.digitChar d) = some d := by decide

theorem digits_text (mask : CpuMask) : digits mask.text = mask.tab.toList.flatMap byteDigits := by
  have hpair : ∀ x : BitVec 8 × Nat,
      ([Nat.digitChar (x.1.toNat / 16), Nat.digitChar (x.1.toNat % 16)]
      ++ if (x.2 + 1) % 4 = 0 then [','] else []).filterMap hexNum = byteDigits x.1 := by
    intro x
    have hcomma : hexNum ',' = none := by decide
    have hlt := x.1.isLt
    have hhigh := hexNum_digitChar (x.1.toNat / 16) (by omega)
    have hlow := hexNum_digitChar (x.1.toNat % 16) (by omega)
    split_ifs <;> simp [hhigh, hlow, byteDigits, hcomma]
  rw [digits, text, List.filterMap_flatMap]
  simp only [hpair]
  rw [← List.flatMap_map (f := Prod.fst), List.zipIdx_map_fst]

theorem byteDigits_length (l : List (BitVec 8)) : (l.flatMap byteDigits).length = 2 * l.length := by
  induction l with
  | nil => rfl
  | cons b l ih =>
    rw [List.flatMap_cons, List.length_append, ih, List.length_cons]
    simp only [byteDigits, List.length_cons, List.length_nil]
    omega

/-- The bits of the number that a string of bytes spells are the bits of the bytes. -/
theorem testBit_bytes (l : List (BitVec 8)) (i : Nat) :
    (Nat.ofDigits 16 (l.flatMap byteDigits).reverse).testBit i
      = (l.reverse[i / 8]?.getD 0).getLsbD (i % 8) := by
  induction l with
  | nil => simp
  | cons b l ih =>
    have hdigits : ∀ n ∈ (l.flatMap byteDigits).reverse, n < 16 := by
      intro n hn
      obtain ⟨c, -, hc⟩ := List.mem_flatMap.1 (List.mem_reverse.1 hn)
      have := c.isLt
      simp only [byteDigits, List.mem_cons, List.not_mem_nil, or_false] at hc
      omega
    have hlt := Nat.ofDigits_lt_base_pow_length (by decide) hdigits
    rw [List.length_reverse, byteDigits_length] at hlt
    have hpow : 16 ^ (2 * l.length) = 2 ^ (8 * l.length) := by
      rw [show 8 * l.length = 4 * (2 * l.length) by omega, Nat.pow_mul 2]
    have hcons : Nat.ofDigits 16 ((b :: l).flatMap byteDigits).reverse
        = 2 ^ (8 * l.length) * b.toNat + Nat.ofDigits 16 (l.flatMap byteDigits).reverse := by
      rw [List.flatMap_cons, byteDigits, List.cons_append, List.cons_append, List.nil_append,
        Nat.ofDigits_reverse_cons, Nat.ofDigits_reverse_cons, List.length_cons, byteDigits_length,
        Nat.pow_succ, hpow]
      conv_rhs => rw [← Nat.div_add_mod b.toNat 16]
      ring
    rw [hcons, Nat.testBit_two_pow_mul_add _ (hpow ▸ hlt), ih, List.reverse_cons,
      List.getElem?_append, List.length_reverse]
    by_cases hi : i < 8 * l.length
    · rw [if_pos hi, if_pos (by omega)]
    · rw [if_neg hi, if_neg (by omega), BitVec.testBit_toNat]
      by_cases hb : i < 8 * l.length + 8
      · have : i / 8 - l.length = 0 ∧ i - 8 * l.length = i % 8 := by omega
        rw [this.1, this.2]
        rfl
      · have hout : ∀ n, n ≠ 0 → [b][n]? = none := by simp
        rw [hout _ (by omega), BitVec.getLsbD_of_ge _ _ (by omega)]
        simp

/-- The text of a mask spells its bits. -/
theorem testBit_text (mask : CpuMask) (h : lcore < 4096) :
    (hexValue mask.text).testBit lcore = mask.get lcore := by
  rw [hexValue, digits_text, testBit_bytes, get_eq h, List.getElem?_reverse (by simp; omega)]
  simp

theorem lt_of_testBit_text {mask : CpuMask} (h : (hexValue mask.text).testBit lcore = true) :
    lcore < 4096 := by
  by_contra hge
  rw [hexValue, digits_text, testBit_bytes, List.getElem?_eq_none (by simp; omega)] at h
  simp at h

/-! ## Reading what was written -/

/-- Which of the characters a byte takes are digits. -/
def digitPattern (i : Nat) : List Bool := [true, true] ++ if (i + 1) % 4 = 0 then [false] else []

/-- Which characters of a text are digits does not depend on the mask. -/
theorem text_pattern (mask : CpuMask) :
    (mask.text.map fun c => (hexNum c).isSome) = (List.range 512).flatMap digitPattern := by
  have hpair : ∀ x : BitVec 8 × Nat,
      (([Nat.digitChar (x.1.toNat / 16), Nat.digitChar (x.1.toNat % 16)]
      ++ if (x.2 + 1) % 4 = 0 then [','] else []).map fun c => (hexNum c).isSome)
      = digitPattern x.2 := by
    intro x
    have hcomma : hexNum ',' = none := by decide
    have hlt := x.1.isLt
    have hhigh := hexNum_digitChar (x.1.toNat / 16) (by omega)
    have hlow := hexNum_digitChar (x.1.toNat % 16) (by omega)
    unfold digitPattern
    split_ifs <;> simp [hhigh, hlow, hcomma]
  rw [text, List.map_flatMap]
  simp only [hpair]
  rw [← List.flatMap_map (f := Prod.snd), List.zipIdx_map_snd, Vector.length_toList,
    List.range_eq_range']

/-- Of the digits of a mask the buffer holds the 455 highest. -/
theorem digits_take (mask : CpuMask) :
    digits (mask.text.take 511) = (digits mask.text).take 455 := by
  have hlen : (digits (mask.text.take 511)).length = 455 := by
    calc (digits (mask.text.take 511)).length
        = (mask.text.take 511).countP fun c => (hexNum c).isSome := List.length_filterMap_eq_countP
      _ = (((List.range 512).flatMap digitPattern).take 511).countP id := by
        rw [← text_pattern, ← List.map_take, List.countP_map]
        rfl
      _ = 455 := by decide +kernel
  have hsplit : digits mask.text = digits (mask.text.take 511) ++ digits (mask.text.drop 511) := by
    rw [digits, digits, digits, ← List.filterMap_append, List.take_append_drop]
  rw [hsplit, ← hlen, List.take_left]

theorem testBit_append (hi : List Nat) {lo : List Nat} (h : ∀ n ∈ lo, n < 16) (i : Nat) :
    (Nat.ofDigits 16 (hi ++ lo).reverse).testBit (i + 4 * lo.length)
      = (Nat.ofDigits 16 hi.reverse).testBit i := by
  have hlt := Nat.ofDigits_lt_base_pow_length (b := 16) (l := lo.reverse) (by decide)
    fun n hn => h n (List.mem_reverse.1 hn)
  have hpow : 16 ^ lo.length = 2 ^ (4 * lo.length) := by rw [Nat.pow_mul]
  rw [List.length_reverse, hpow] at hlt
  rw [List.reverse_append, Nat.ofDigits_append, List.length_reverse, hpow,
    Nat.add_comm (Nat.ofDigits _ _),
    Nat.testBit_two_pow_mul_add _ hlt, if_neg (by omega), Nat.add_sub_cancel]

/-- A mask read back from its text has what was 2276 CPUs up, and nothing of the lower CPUs. -/
theorem get_ofText_text (mask : CpuMask) (h : lcore < 4096) :
    (ofText mask.text).get lcore = (decide (lcore < 1820) && mask.get (lcore + 2276)) := by
  have hlow : ((digits mask.text).drop 455).length = 569 := by
    rw [List.length_drop, digits_text, byteDigits_length, Vector.length_toList]
  have hdrop : ∀ n ∈ (digits mask.text).drop 455, n < 16 := fun n hn =>
    mem_digits (List.mem_of_mem_drop hn)
  have hbit := testBit_append ((digits mask.text).take 455) hdrop lcore
  rw [List.take_append_drop, hlow] at hbit
  rw [get_ofText mask.text h, hexValue, digits_take, ← hbit]
  by_cases hl : lcore < 1820
  · rw [decide_eq_true hl, Bool.true_and, ← testBit_text mask (by omega), hexValue]
  · rw [decide_eq_false hl, Bool.false_and, digits_text, testBit_bytes,
      List.getElem?_eq_none (by simp; omega)]
    simp

end CpuMask

/-! ## Through a file -/

/-- A file that holds what was last written to it. -/
def oneFile : Resctrl (List Char) where
  read _ _ := get
  write _ _ text := set text
  taskExists _ _ := false

/-- A file that the buffer holds is read as the number its digits spell, and no digit of it falls
outside of the table. -/
theorem cpumaskRead_number {κ : Type} (fs : Resctrl κ) (classId : Nat) {text : List Char} {s t : κ}
    (hread : fs.read classId .cpus s = .ok text t) (hlen : text.length < 512) :
    ∃ mask, cpumaskRead fs classId s = .ok mask t
      ∧ (∀ lcore < 4096, mask.get lcore = (CpuMask.hexValue text).testBit lcore)
      ∧ ∃ sc, CpuMask.scan text = some sc ∧ sc.mask = mask := by
  have htake : text.take 511 = text := List.take_of_length_le (by omega)
  have hdigits := CpuMask.digits_length_le text
  refine ⟨CpuMask.ofText text, ?_, fun lcore hl => ?_, _, CpuMask.scan_eq (by omega), ?_⟩
  · have hfile : readFile fs classId .cpus s = .ok text t := by
      simp only [readFile, mapError, EStateM.run, hread]
    simp only [cpumaskRead, Functor.map, EStateM.map, hfile]
  · rw [CpuMask.get_ofText text hl, htake]
  · rw [CpuMask.ofText, htake]

theorem cpumaskRead_number_a1F :
    ∃ mask, cpumaskRead oneFile 0 ['a', ',', '1', 'F'] = .ok mask ['a', ',', '1', 'F']
      ∧ (∀ lcore < 4096, mask.get lcore = Nat.testBit 0xa1f lcore)
      ∧ ∃ sc, CpuMask.scan ['a', ',', '1', 'F'] = some sc ∧ sc.mask = mask := by
  have hvalue : CpuMask.hexValue ['a', ',', '1', 'F'] = 0xa1f := by decide
  rw [← hvalue]
  exact cpumaskRead_number oneFile 0 rfl (by decide)

/-- What is read from a file that a mask was written to. -/
theorem oneFile_run (mask : CpuMask) (classId : Nat) (text : List Char) :
    value ((cpumaskWrite oneFile classId mask *> cpumaskRead oneFile classId).run text)
      = some (CpuMask.ofText mask.text) := rfl

/-- Only the empty mask is read back as it was written. -/
theorem cpumask_readBack_iff (mask : CpuMask) (classId : Nat) (text : List Char) :
    value ((cpumaskWrite oneFile classId mask *> cpumaskRead oneFile classId).run text) = some mask
      ↔ ∀ lcore < 4096, mask.get lcore = false := by
  rw [oneFile_run, Option.some.injEq]
  constructor
  · intro h
    have hget : ∀ lcore < 4096, mask.get lcore
        = (decide (lcore < 1820) && mask.get (lcore + 2276)) := by
      intro lcore hl
      conv_lhs => rw [← h]
      exact CpuMask.get_ofText_text mask hl
    -- a CPU of the mask is one of the lower 1820, and so is the one 2276 further up
    intro lcore hl
    rw [hget lcore hl]
    by_cases hlow : lcore < 1820
    · rw [hget (lcore + 2276) (by omega), decide_eq_false (by omega : ¬ lcore + 2276 < 1820)]
      simp
    · rw [decide_eq_false hlow, Bool.false_and]
  · intro h
    refine CpuMask.ext_get fun lcore hl => ?_
    rw [CpuMask.get_ofText_text mask hl, h lcore hl]
    by_cases hlow : lcore < 1820
    · rw [h (lcore + 2276) (by omega), Bool.and_false]
    · rw [decide_eq_false hlow, Bool.false_and]

/-- CPU 0 is lost on the way. -/
theorem cpumask_readBack_cpu0 :
    value ((cpumaskWrite oneFile 0 (CpuMask.empty.set 0) *> cpumaskRead oneFile 0).run [])
      ≠ some (CpuMask.empty.set 0) := by
  rw [oneFile_run]
  intro h
  have hget := CpuMask.get_ofText_text (CpuMask.empty.set 0) (by decide : 0 < 4096)
  rw [Option.some.inj h, CpuMask.get_set _ (by decide) (by decide),
    CpuMask.get_set _ (by decide) (by decide), CpuMask.get_empty, CpuMask.get_empty] at hget
  revert hget
  decide

end Pqos
