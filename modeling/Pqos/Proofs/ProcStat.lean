import Mathlib.Data.List.GetD
import Pqos.Lib.Numbers
import Pqos.Top

/-!
# The CPU time of a process

The kernel puts the name of a process in parentheses, and the columns are told apart by spaces.
Where the name has none the columns are those of the line, and the ticks are their sum if 64 bits
hold it. Where it has some, every column after the name comes later than the loop takes it to be:
the state is looked for in the name, and the ticks are the sum of two numbers that stand in front of
the times, by as many places as the name has parts too many.
-/

namespace Pqos

open CText

/-! ## Lines -/

def intText (i : Int) : List Char :=
  if i < 0 then '-' :: Nat.toDigits 10 i.natAbs else Nat.toDigits 10 i.natAbs

/-- The fields of a line: the columns from the third on are the state, ten numbers, the two times
and more numbers. -/
structure StatFields where
  pid : Nat
  comm : List Char
  state : Char
  before : List Int
  utime : Nat
  stime : Nat
  more : List Int

namespace StatFields

variable (f : StatFields)

def nameText : List Char := '(' :: (f.comm ++ [')'])

/-- The numbers behind the state, up to the second time. -/
def numbers : List Int := f.before ++ [(f.utime : Int), (f.stime : Int)]

/-- The columns behind the name, up to the second time. -/
def columns : List (List Char) :=
  [f.state] :: (f.before.map intText ++ [Nat.toDigits 10 f.utime, Nat.toDigits 10 f.stime])

def text : List Char :=
  Nat.toDigits 10 f.pid ++ ' ' :: (f.nameText ++ ' ' :: ([' '].intercalate f.columns
    ++ ' ' :: ([' '].intercalate (f.more.map intText) ++ ['\n'])))

theorem columns_eq : f.columns = [f.state] :: f.numbers.map intText := by
  simp [columns, numbers, intText]

end StatFields

/-- A line of the kernel that fits the buffer. The name is anything but a NUL. -/
structure StatLine extends StatFields where
  comm_nul : Char.ofNat 0 ∉ comm
  letter : state.isAlpha = true
  ten : before.length = 10
  more_ne : more ≠ []
  fits : toStatFields.text.length ≤ 511

/-- With a state of the list the function returns the sum of the times, with another it fails. -/
def ReadsTicks (line : StatLine) : Prop :=
  if line.state ∈ procStatWhitelist then
    (getPidCputicks (some line.text)).map BitVec.toNat = some (line.utime + line.stime)
  else getPidCputicks (some line.text) = none

/-! ## The loop -/

/-- A column as the loop counts them. -/
def column (tokens : List (List Char)) (colIdx : Nat) : List Char := tokens.getD (colIdx - 1) []

section Loop

variable {colIdx : Nat} {ticks : Word} {tokens rest : List (List Char)}

/-- Columns that are not of interest are passed. -/
theorem cputicksFrom_skip : ∀ {tokens : List (List Char)} {colIdx : Nat},
    (∀ i < tokens.length, colIdx + i ∉ [pidColStatus, pidColUtime, pidColStime]) →
      colIdx + tokens.length ≤ pidColStime →
      cputicksFrom colIdx ticks (tokens ++ rest)
        = cputicksFrom (colIdx + tokens.length) ticks rest
  | [], _, _, _ => rfl
  | token :: tokens, colIdx, h, hle => by
    have hhere := h 0 (by simp)
    rw [List.length_cons] at hle
    simp only [Nat.add_zero, List.mem_cons, List.not_mem_nil, or_false, not_or] at hhere
    rw [List.cons_append, cputicksFrom, if_neg (by omega), if_neg (fun hs => hhere.1 hs.1),
      if_neg (not_or.2 hhere.2)]
    rw [cputicksFrom_skip (fun i hi => ?_) (by omega), List.length_cons]
    · congr 1
      omega
    · have := h (i + 1) (by rw [List.length_cons]; omega)
      rwa [← Nat.add_assoc, Nat.add_right_comm] at this

/-- A line of fifteen columns, with those of interest set apart. -/
theorem columns_split (h : 15 ≤ tokens.length) :
    ∃ front between rest, front.length = 2 ∧ between.length = 10
      ∧ tokens = front ++ column tokens pidColStatus
        :: (between ++ column tokens pidColUtime :: column tokens pidColStime :: rest) := by
  have hcol : ∀ i (hi : i < 15), tokens.drop i = tokens.getD i [] :: tokens.drop (i + 1) := by
    intro i hi
    rw [List.drop_eq_getElem_cons (by omega), List.getD_eq_getElem?_getD,
      List.getElem?_eq_getElem (by omega), Option.getD_some]
  refine ⟨tokens.take 2, (tokens.drop 3).take 10, tokens.drop 15, ?_, ?_, ?_⟩
  · rw [List.length_take]
    omega
  · rw [List.length_take, List.length_drop]
    omega
  · calc tokens = tokens.take 2 ++ tokens.drop 2 := (List.take_append_drop 2 tokens).symm
      _ = tokens.take 2 ++ column tokens pidColStatus :: tokens.drop 3 := by
        rw [hcol 2 (by omega)]
        rfl
      _ = tokens.take 2 ++ column tokens pidColStatus
          :: ((tokens.drop 3).take 10 ++ tokens.drop 13) := by
        rw [← List.drop_drop (i := 10), List.take_append_drop]
      _ = _ := by rw [hcol 13 (by omega), hcol 14 (by omega)]; rfl

theorem cputicksFrom_columns (h : 15 ≤ tokens.length) :
    cputicksFrom 1 0 tokens
      = if strpbrk (column tokens pidColStatus) procStatWhitelist = [] then none
        else some (columnTicks (column tokens pidColUtime)
          + columnTicks (column tokens pidColStime)) := by
  obtain ⟨front, between, rest, hfront, hbetween, hsplit⟩ := columns_split h
  generalize column tokens pidColStatus = status at hsplit ⊢
  generalize column tokens pidColUtime = utime at hsplit ⊢
  generalize column tokens pidColStime = stime at hsplit ⊢
  have hstart : cputicksFrom 1 0 tokens
      = cputicksFrom 3 0 (status :: (between ++ utime :: stime :: rest)) := by
    rw [hsplit, cputicksFrom_skip (fun i hi => ?_) (by rw [hfront]; decide), hfront]
    rw [hfront] at hi
    revert i
    decide
  rw [hstart, cputicksFrom, if_neg (by decide)]
  by_cases hstate : strpbrk status procStatWhitelist = []
  · rw [if_pos ⟨rfl, hstate⟩, if_pos hstate]
  · have hnext : cputicksFrom 4 0 (between ++ utime :: stime :: rest)
        = cputicksFrom 14 0 (utime :: stime :: rest) := by
      rw [cputicksFrom_skip (fun i hi => ?_) (by rw [hbetween]; decide), hbetween]
      rw [hbetween] at hi
      revert i
      decide
    have hend : cputicksFrom 16 (0 + columnTicks utime + columnTicks stime) rest
        = some (0 + columnTicks utime + columnTicks stime) := by
      cases rest with
      | nil => rfl
      | cons token rest => exact if_pos (by decide)
    have hutime : ¬ (14 = pidColStatus ∧ strpbrk utime procStatWhitelist = []) :=
      fun h => absurd h.1 (by decide)
    have hstime : ¬ (14 + 1 = pidColStatus ∧ strpbrk stime procStatWhitelist = []) :=
      fun h => absurd h.1 (by decide)
    rw [if_neg fun h => hstate h.2, if_neg (by decide), hnext, cputicksFrom, if_neg (by decide),
      if_neg hutime, if_pos (by decide), cputicksFrom, if_neg (by decide), if_neg hstime,
      if_pos (by decide), hend, if_neg hstate, zero_add]

end Loop

/-! ## The columns of a line -/

theorem digits_plain {n : Nat} {c : Char} (h : c ∈ Nat.toDigits 10 n) :
    c ≠ ' ' ∧ c ≠ Char.ofNat 0 := by
  obtain ⟨d, hd, rfl⟩ := mem_toDigits (by decide) h
  have hplain := digitChar_plain d (by omega)
  refine ⟨fun hsp => ?_, fun hnul => hplain.2 (by rw [hnul]; decide)⟩
  have hspace : isspace ' ' = true := rfl
  rw [hsp, hspace] at hplain
  exact absurd hplain.1 (by decide)

theorem intText_plain {i : Int} {c : Char} (h : c ∈ intText i) : c ≠ ' ' ∧ c ≠ Char.ofNat 0 := by
  unfold intText at h
  split_ifs at h
  · rcases List.mem_cons.1 h with rfl | h
    · decide
    · exact digits_plain h
  · exact digits_plain h

theorem intText_ne_nil (i : Int) : intText i ≠ [] := by
  unfold intText
  split_ifs
  · exact List.cons_ne_nil _ _
  · exact Nat.toDigits_ne_nil

namespace StatLine

variable (line : StatLine)

/-- The tokens of the line. -/
def tokens : List (List Char) := strtok ' ' line.text

/-- What the name is split into. -/
def nameTokens : List (List Char) := strtok ' ' line.nameText

theorem state_plain : line.state ≠ ' ' ∧ line.state ≠ Char.ofNat 0 := by
  have hletter := line.letter
  constructor <;> rintro h <;> rw [h] at hletter <;> exact absurd hletter (by decide)

theorem columns_plain {t : List Char} (h : t ∈ line.columns) :
    t ≠ [] ∧ ∀ c ∈ t, c ≠ ' ' ∧ c ≠ Char.ofNat 0 := by
  rcases List.mem_cons.1 h with rfl | h
  · refine ⟨List.cons_ne_nil _ _, fun c hc => ?_⟩
    rw [List.mem_singleton.1 hc]
    exact line.state_plain
  rcases List.mem_append.1 h with h | h
  · obtain ⟨i, -, rfl⟩ := List.mem_map.1 h
    exact ⟨intText_ne_nil i, fun c hc => intText_plain hc⟩
  · simp only [List.mem_cons, List.not_mem_nil, or_false] at h
    rcases h with rfl | rfl <;> exact ⟨Nat.toDigits_ne_nil, fun c hc => digits_plain hc⟩

theorem nul_notMem_text : Char.ofNat 0 ∉ line.text := by
  have hname : Char.ofNat 0 ∉ line.nameText := by
    have := line.comm_nul
    simp only [StatFields.nameText, List.mem_cons, List.mem_append, List.not_mem_nil, or_false,
      this]
    decide
  have hwords : ∀ l : List (List Char), (∀ t ∈ l, ∀ c ∈ t, c ≠ Char.ofNat 0) →
      Char.ofNat 0 ∉ [' '].intercalate l := by
    intro l hl h
    rcases mem_intercalate h with h | ⟨t, ht, hc⟩
    · exact absurd h (by decide)
    · exact hl t ht _ hc rfl
  have hsp : Char.ofNat 0 ≠ ' ' := by decide
  have hnl : Char.ofNat 0 ≠ '\n' := by decide
  simp only [StatFields.text, List.mem_append, List.mem_cons, List.not_mem_nil, or_false, hsp, hnl,
    false_or, not_or]
  refine ⟨fun h => (digits_plain h).2 rfl, hname,
    hwords _ fun t ht c hc => ((line.columns_plain ht).2 c hc).2, hwords _ fun t ht c hc => ?_⟩
  obtain ⟨i, -, rfl⟩ := List.mem_map.1 ht
  exact (intText_plain hc).2

theorem nameTokens_ne_nil : line.nameTokens ≠ [] :=
  strtok_ne_nil (c := '(') List.mem_cons_self (by decide)

theorem length_columns : line.columns.length = 13 := by
  simp [StatFields.columns, line.ten]

/-- The columns behind the name are where they are counted, or further back. -/
theorem tokens_eq : ∃ rest,
    line.tokens = Nat.toDigits 10 line.pid :: (line.nameTokens ++ (line.columns ++ rest)) := by
  have hpid : strtok ' ' (Nat.toDigits 10 line.pid) = [Nat.toDigits 10 line.pid] :=
    strtok_word Nat.toDigits_ne_nil fun h => (digits_plain h).1 rfl
  have hcols : strtok ' ' ([' '].intercalate line.columns) = line.columns :=
    strtok_intercalate (List.cons_ne_nil _ _) fun t ht =>
      ⟨(line.columns_plain ht).1, fun hc => ((line.columns_plain ht).2 ' ' hc).1 rfl⟩
  refine ⟨strtok ' ' ([' '].intercalate (line.more.map intText) ++ ['\n']), ?_⟩
  rw [tokens, StatFields.text, strtok_append, strtok_append, strtok_append, hpid, hcols]
  rfl

theorem getPidCputicks_text : getPidCputicks (some line.text)
    = if strpbrk (column line.tokens pidColStatus) procStatWhitelist = [] then none
      else some (columnTicks (column line.tokens pidColUtime)
        + columnTicks (column line.tokens pidColStime)) := by
  have hlength : 15 ≤ line.tokens.length := by
    obtain ⟨rest, hrest⟩ := line.tokens_eq
    have hname := List.length_pos_iff.2 line.nameTokens_ne_nil
    have hcols := line.length_columns
    rw [hrest]
    simp only [List.length_cons, List.length_append]
    omega
  have hbuf : line.text.take 511 = line.text := List.take_of_length_le line.fits
  have hcstr : cstr line.text = line.text := by
    rw [cstr, List.takeWhile_eq_self_iff]
    intro c hc
    have hne : c ≠ Char.ofNat 0 := fun h => line.nul_notMem_text (h ▸ hc)
    simpa using hne
  have hne : line.text ≠ [] := by simp [StatFields.text]
  rw [← cputicksFrom_columns hlength, tokens, getPidCputicks]
  simp only [Option.bind_eq_bind, Option.bind_some, hbuf, hcstr]
  exact if_neg hne

end StatLine

/-! ## The ticks -/

/-- A column adds the number it is. -/
theorem columnTicks_toNat (token : List Char) :
    (columnTicks token).toNat = wrapped (intOf token) := by
  have hlt := strtoull_lt 10 token
  rw [← strtoull_intOf, columnTicks]
  unfold isStrConversionOk
  simp only [decide_eq_true_eq]
  split_ifs
  · exact Nat.mod_eq_of_lt hlt
  · rfl

/-- A letter starts no number. -/
theorem letter_plain {c : Char} (h : c.isAlpha = true) :
    isspace c = false ∧ isDigit 10 c = false := by
  have hcode : (65 ≤ c.toNat ∧ c.toNat ≤ 90) ∨ (97 ≤ c.toNat ∧ c.toNat ≤ 122) := by
    change (decide ('A'.val ≤ c.val ∧ c.val ≤ 'Z'.val)
      || decide ('a'.val ≤ c.val) && decide (c.val ≤ 'z'.val)) = true at h
    simp only [Bool.or_eq_true, Bool.and_eq_true, decide_eq_true_eq, UInt32.le_iff_toNat_le] at h
    exact h
  have hblank : c ≠ ' ' := by
    rintro rfl
    exact absurd h (by decide)
  have hle : ∀ a b : Char, a ≤ b ↔ a.toNat ≤ b.toNat := fun _ _ => UInt32.le_iff_toNat_le
  have hends : ('0' : Char).toNat = 48 ∧ ('9' : Char).toNat = 57 ∧ ('a' : Char).toNat = 97
      ∧ ('A' : Char).toNat = 65 := by decide
  constructor
  · simp only [isspace, hblank, false_or, decide_eq_false_iff_not]
    omega
  · simp only [isDigit, digitVal, hle, hends, decide_eq_false_iff_not]
    split_ifs <;> omega

theorem intOf_intText (i : Int) : intOf (intText i) = i := by
  unfold intText
  split_ifs
  · rw [intOf_neg (digits_toDigits _)]
    omega
  · rw [intOf_digits (digits_toDigits _)]
    omega

namespace StatLine

variable (line : StatLine)

/-- The state is no number. -/
theorem intOf_state : intOf [line.state] = 0 := by
  obtain ⟨hspace, hdigit⟩ := letter_plain line.letter
  have hsign : ∀ c : Char, c.isAlpha = false → line.state ≠ c := by
    rintro c hc rfl
    exact Bool.false_ne_true (hc.symm.trans line.letter)
  have hminus := hsign '-' (by decide)
  have hplus := hsign '+' (by decide)
  simp [intOf, hspace, hdigit, hminus, hplus]

theorem length_numbers : line.numbers.length = 12 := by simp [StatFields.numbers, line.ten]

/-- The column of a part of the name. -/
theorem column_name {i : Nat} (h : i < line.nameTokens.length) :
    column line.tokens (i + 2) = line.nameTokens.getD i [] := by
  obtain ⟨rest, hrest⟩ := line.tokens_eq
  change line.tokens.getD (i + 1) [] = _
  rw [hrest, List.getD_cons_succ, List.getD_append _ _ _ _ h]

/-- The columns behind the name come as much later as the name has parts. -/
theorem column_back {i : Nat} (h : i < 13) :
    column line.tokens (line.nameTokens.length + i + 2) = line.columns.getD i [] := by
  obtain ⟨rest, hrest⟩ := line.tokens_eq
  change line.tokens.getD (line.nameTokens.length + i + 1) [] = _
  rw [hrest, List.getD_cons_succ, List.getD_append_right _ _ _ _ (Nat.le_add_right _ _),
    Nat.add_sub_cancel_left, List.getD_append _ _ _ _ (by rw [line.length_columns]; exact h)]

/-- The numbers are behind the state. -/
theorem column_number {i : Nat} (h : i < 12) :
    column line.tokens (line.nameTokens.length + i + 3) = intText (line.numbers.getD i 0) := by
  have hlength : i < line.numbers.length := by rw [line.length_numbers]; exact h
  rw [show line.nameTokens.length + i + 3 = line.nameTokens.length + (i + 1) + 2 by omega,
    line.column_back (by omega), line.columns_eq, List.getD_cons_succ,
    List.getD_eq_getElem?_getD, List.getElem?_map, List.getElem?_eq_getElem hlength,
    List.getD_eq_getElem?_getD, List.getElem?_eq_getElem hlength]
  rfl

/-- Without spaces in the name the columns are those of the line. -/
theorem columns_named (h : ' ' ∉ line.comm) : column line.tokens pidColStatus = [line.state]
    ∧ column line.tokens pidColUtime = intText line.utime
    ∧ column line.tokens pidColStime = intText line.stime := by
  have hname : line.nameTokens.length = 1 := by
    have hword : ' ' ∉ line.nameText := by simp [StatFields.nameText, h]
    have hne : line.nameText ≠ [] := List.cons_ne_nil _ _
    rw [nameTokens, strtok_word hne hword, List.length_singleton]
  have hstatus := line.column_back (i := 0) (by decide)
  have hutime := line.column_number (i := 10) (by decide)
  have hstime := line.column_number (i := 11) (by decide)
  have hbefore := line.ten
  rw [hname] at hstatus hutime hstime
  refine ⟨hstatus, hutime.trans ?_, hstime.trans ?_⟩
  · simp [StatFields.numbers, List.getD_eq_getElem?_getD, hbefore]
  · simp [StatFields.numbers, List.getD_eq_getElem?_getD, hbefore]

/-- A name with spaces is split. -/
theorem nameTokens_spaced (h : ' ' ∈ line.comm) : 1 < line.nameTokens.length := by
  obtain ⟨s, t, hcomm⟩ := List.append_of_mem h
  have hsplit : line.nameText = ('(' :: s) ++ ' ' :: (t ++ [')']) := by
    simp [StatFields.nameText, hcomm]
  have hfirst : 0 < (strtok ' ' ('(' :: s)).length :=
    List.length_pos_iff.2 (strtok_ne_nil List.mem_cons_self (by decide))
  have hsecond : 0 < (strtok ' ' (t ++ [')'])).length :=
    List.length_pos_iff.2 (strtok_ne_nil (c := ')') (by simp) (by decide))
  rw [nameTokens, hsplit, strtok_append, List.length_append]
  omega

/-- The two numbers that are taken for the times when the name is split: each is as many places in
front of them as the name has parts too many. The state is no number, and in front of it there is
the name. -/
def takenForTimes : Int × Int :=
  let parts := line.nameTokens.length
  if parts ≤ 11 then (line.numbers.getD (11 - parts) 0, line.numbers.getD (12 - parts) 0)
  else if parts = 12 then (0, line.numbers.getD 0 0)
  else (intOf (line.nameTokens.getD 12 []), intOf (line.nameTokens.getD 13 []))

theorem takenForTimes_eq : line.takenForTimes
    = (intOf (column line.tokens pidColUtime), intOf (column line.tokens pidColStime)) := by
  have hnumber : ∀ {i j : Nat}, i < 12 → line.nameTokens.length + i + 3 = j →
      intOf (column line.tokens j) = line.numbers.getD i 0 := by
    rintro i j hi rfl
    rw [line.column_number hi, intOf_intText]
  have hstate : ∀ {j : Nat}, line.nameTokens.length + 2 = j →
      intOf (column line.tokens j) = 0 := by
    rintro j rfl
    rw [← line.intOf_state]
    exact congrArg intOf (line.column_back (i := 0) (by decide))
  have hpos := List.length_pos_iff.2 line.nameTokens_ne_nil
  unfold takenForTimes pidColUtime pidColStime
  dsimp only
  split_ifs with hfront hstatus
  · rw [hnumber (i := 11 - line.nameTokens.length) (by omega) (by omega),
      hnumber (i := 12 - line.nameTokens.length) (by omega) (by omega)]
  · rw [hstate (by omega), hnumber (i := 0) (by decide) (by omega)]
  · rw [line.column_name (i := 12) (by omega)]
    by_cases hlast : line.nameTokens.length = 13
    · rw [hstate (by omega), List.getD_eq_default line.nameTokens _ (n := 13) (by omega), intOf_nil]
    · rw [line.column_name (i := 13) (by omega)]

end StatLine

/-- The name of a process has spaces, and its second part happens to have a letter of the list where
the state is on it, and the numbers in front of the times to have their sum. -/
structure Coincides (line : StatLine) : Prop where
  state : (∃ c ∈ line.nameTokens.getD 1 [], c ∈ procStatWhitelist)
    ↔ line.state ∈ procStatWhitelist
  ticks : line.state ∈ procStatWhitelist →
    (wrapped line.takenForTimes.1 + wrapped line.takenForTimes.2) % 2 ^ 64
      = line.utime + line.stime

theorem readsTicks_named {line : StatLine} (h : ' ' ∉ line.comm) :
    ReadsTicks line ↔ (line.state ∈ procStatWhitelist → line.utime + line.stime < 2 ^ 64) := by
  obtain ⟨hstatus, hutime, hstime⟩ := line.columns_named h
  have hread : strpbrk (column line.tokens pidColStatus) procStatWhitelist = []
      ↔ line.state ∉ procStatWhitelist := by simp [hstatus, strpbrk_eq_nil]
  unfold ReadsTicks
  rw [line.getPidCputicks_text]
  split_ifs with hstate hin hin
  · exact absurd hstate (hread.1 hin)
  · rw [hutime, hstime, Option.map_some, Option.some.injEq]
    refine ⟨fun hsum _ => hsum ▸ BitVec.isLt _, fun hfits => ?_⟩
    have hlt := hfits hstate
    rw [BitVec.toNat_add, columnTicks_toNat, columnTicks_toNat, intOf_intText, intOf_intText,
      wrapped_ofNat (by omega), wrapped_ofNat (by omega), Nat.mod_eq_of_lt hlt]
  · exact iff_of_true rfl fun h => absurd h hstate
  · exact absurd (hread.2 hstate) hin

theorem readsTicks_spaced {line : StatLine} (h : ' ' ∈ line.comm) :
    ReadsTicks line ↔ Coincides line := by
  have hread : strpbrk (column line.tokens pidColStatus) procStatWhitelist = []
      ↔ ¬ ∃ c ∈ line.nameTokens.getD 1 [], c ∈ procStatWhitelist := by
    rw [← line.column_name (line.nameTokens_spaced h), strpbrk_eq_nil]
    push Not
    rfl
  have hsum : (columnTicks (column line.tokens pidColUtime)
      + columnTicks (column line.tokens pidColStime)).toNat
      = (wrapped line.takenForTimes.1 + wrapped line.takenForTimes.2) % 2 ^ 64 := by
    rw [BitVec.toNat_add, columnTicks_toNat, columnTicks_toNat, line.takenForTimes_eq]
  unfold ReadsTicks
  rw [line.getPidCputicks_text]
  split_ifs with hstate hin hin
  · exact iff_of_false (by simp) fun hc => hread.1 hin (hc.state.2 hstate)
  · rw [Option.map_some, Option.some.injEq, hsum]
    exact ⟨fun hticks => ⟨iff_of_true (not_not.1 (mt hread.2 hin)) hstate, fun _ => hticks⟩,
      fun hc => hc.ticks hstate⟩
  · exact iff_of_true rfl ⟨iff_of_false (hread.1 hin) hstate, fun h => absurd h hstate⟩
  · exact iff_of_false (by simp) fun hc => hin (hread.2 (mt hc.state.1 hstate))

/-- The ticks are read exactly if the name has no space and 64 bits hold the sum, or by
coincidence. -/
theorem readsTicks_iff (line : StatLine) :
    ReadsTicks line ↔ (' ' ∉ line.comm
        ∧ (line.state ∈ procStatWhitelist → line.utime + line.stime < 2 ^ 64))
      ∨ ' ' ∈ line.comm ∧ Coincides line := by
  by_cases h : ' ' ∈ line.comm
  · rw [readsTicks_spaced h]
    simp [h]
  · rw [readsTicks_named h]
    simp [h]

/-- A process that sleeps, with a space in its name. -/
def tmuxServer : StatLine where
  pid := 812
  comm := "tmux: server".toList
  state := 'S'
  before := [1, 812, 812, 0, -1, 4194368, 953, 0, 2, 0]
  utime := 35
  stime := 12
  more := [0, 0, 20]
  comm_nul := by decide
  letter := by decide
  ten := by decide
  more_ne := by decide
  fits := by decide +kernel

/-- The state of the process is looked for in its name. -/
theorem readsTicks_tmuxServer : ¬ ∀ line, ReadsTicks line := by
  intro h
  have hcolumn : column tmuxServer.tokens pidColStatus = ['s', 'e', 'r', 'v', 'e', 'r', ')'] := by
    decide +kernel
  have hlist : procStatWhitelist = ['R', 'S', 'D'] := rfl
  have hnone : getPidCputicks (some tmuxServer.text) = none := by
    rw [tmuxServer.getPidCputicks_text, hcolumn, hlist]
    exact if_pos (by decide)
  have hticks := h tmuxServer
  rw [ReadsTicks, if_pos (by decide), hnone] at hticks
  cases hticks

end Pqos
