import Pqos.Resctrl

/-!
# Schemata round trip

A line is read as the settings it was printed from, and settings of all entries in turn, whatever
they held before, leave the values written.
-/

namespace Pqos

open CText

/-! ## Tokens -/

/-- What may follow a number: nothing, or the end of the line. -/
def AtEnd (rest : List Char) : Prop := rest = [] ∨ rest = ['\n']

theorem AtEnd.head {rest : List Char} (h : AtEnd rest) {c : Char} (hc : rest.head? = some c) :
    c = '\n' := by
  rcases h with rfl | rfl
  · cases hc
  · exact (Option.some.inj hc).symm

theorem AtEnd.mem {rest : List Char} (h : AtEnd rest) {c : Char} (hc : c ∈ rest) : c = '\n' := by
  rcases h with rfl | rfl
  · cases hc
  · exact List.mem_singleton.1 hc

theorem toLower_digitChar_ne : ∀ d < 16, (Nat.digitChar d).toLower ≠ 'x' := by decide

section Token

variable {base n : Nat} {rest field : List Char}

/-- A printed number does not start with a hexadecimal prefix. -/
theorem no_hexPrefix (hb : base ≤ 16) (h : Numeral base n field) (hrest : AtEnd rest) :
    strcasecmp ((field ++ rest).take 2) ['0', 'x'] = false := by
  have hall : ∀ e ∈ field ++ rest, e.toLower ≠ 'x' := by
    intro e he
    rcases List.mem_append.1 he with he | he
    · rcases h.mem he with rfl | ⟨d, hd, rfl⟩
      · decide
      · exact toLower_digitChar_ne d (by omega)
    · rw [hrest.mem he]
      decide
  refine Bool.eq_false_iff.2 fun hcmp => ?_
  rw [strcasecmp, decide_eq_true_eq] at hcmp
  have hmem : 'x' ∈ ((field ++ rest).take 2).map Char.toLower := by
    rw [hcmp]
    decide
  obtain ⟨e, he, hx⟩ := List.mem_map.1 hmem
  exact hall e (List.mem_of_mem_take he) hx

theorem strtouint64_numeral (hb : base ≤ 16) (h : Numeral base n field) (hn : n < 2 ^ 64)
    (hrest : AtEnd rest) : strtouint64 (field ++ rest) base = .ok n := by
  have hstop : ∀ c, rest.head? = some c → isDigit base c = false ∧ c ≠ 'x' ∧ c ≠ 'X' := by
    intro c hc
    rw [hrest.head hc]
    have hval : digitVal '\n' = 36 := by decide
    refine ⟨?_, by decide, by decide⟩
    rw [isDigit, hval]
    exact decide_eq_false (by omega)
  have hne : field ++ rest ≠ [] := by simp [h.ne_nil]
  have hend : rest = [] ∨ rest.head? = some '\n' := hrest.imp_right fun h => by rw [h]; rfl
  unfold strtouint64
  simp only [no_hexPrefix hb h hrest, Bool.false_eq_true, if_false, strtoull_numeral hb hn h hstop]
  exact if_pos ⟨hne, hend⟩

end Token

/-- The base in which a line's values stand. -/
def SchemataType.base (type : SchemataType) : Nat := if type = .mb then 10 else 16

theorem SchemataType.base_bounds (type : SchemataType) : 1 < type.base ∧ type.base ≤ 16 := by
  unfold base
  split_ifs <;> omega

/-- The token of each value as it may be printed, after the id that is its place. -/
def lineTokens (fields : List (List Char)) : List (List Char) :=
  fields.zipIdx.map fun (field, id) => Nat.toDigits 10 id ++ '=' :: field

theorem schemataTokens_eq (base : Nat) (values : List Nat) :
    schemataTokens base values = lineTokens (values.map (Nat.toDigits base)) := by
  rw [schemataTokens, lineTokens, List.zipIdx_map, List.map_map]
  rfl

/-- A line as it may be printed: spaces, the label, and a token for each value. -/
def PrintedLine (label : String) (base : Nat) (values : List Nat) (line : List Char) : Prop :=
  ∃ pad fields, List.Forall₂ (Numeral base) values fields
    ∧ line = List.replicate pad ' '
      ++ (label.toList ++ ':' :: [';'].intercalate (lineTokens fields)) ++ ['\n']

theorem schemataLine_printed {base : Nat} (hb : 1 < base) (hb' : base ≤ 16) (label : String)
    (values : List Nat) : PrintedLine label base values (schemataLine label base values) := by
  refine ⟨0, values.map (Nat.toDigits base), ?_, ?_⟩
  · exact List.forall₂_map_right_iff.2 (List.forall₂_same.2 fun v _ => numeral_toDigits hb hb' v)
  · rw [schemataLine, schemataTokens_eq]
    simp

section Line

variable {type : SchemataType} {schemata : Schemata} {id value : Nat} {values : List Nat}
  {fields : List (List Char)} {rest field : List Char}

theorem schemataReadToken_append (type : SchemataType) (schemata : Schemata) (hid : id < 2 ^ 32)
    (hv : value < 2 ^ 64) (hfield : Numeral type.base value field) (hrest : AtEnd rest) :
    schemataReadToken type schemata (Nat.toDigits 10 id ++ '=' :: field ++ rest)
      = schemataSet id value type schemata := by
  have hnum := numeral_toDigits (by decide : 1 < 10) (by decide) id
  have heq : '=' ∉ Nat.toDigits 10 id := by
    intro h
    simpa using hnum.plain (by decide) h
  have hidText : strtouint64 (Nat.toDigits 10 id ++ []) 10 = .ok id :=
    strtouint64_numeral (by decide) hnum (by omega) (Or.inl rfl)
  rw [List.append_nil] at hidText
  have hbase : (if type = .mb then 10 else 16) = type.base := rfl
  unfold schemataReadToken
  rw [List.append_assoc, List.cons_append, strchr_append heq]
  simp only [hidText, hbase, strtouint64_numeral type.base_bounds.2 hfield hv hrest]
  show schemataSet (id % 2 ^ 32) value type schemata = _
  rw [Nat.mod_eq_of_lt hid]

theorem mem_lineTokens {t : List Char} (h : t ∈ lineTokens fields) :
    ∃ id field, id < fields.length ∧ field ∈ fields ∧ t = Nat.toDigits 10 id ++ '=' :: field := by
  obtain ⟨⟨field, id⟩, hm, rfl⟩ := List.mem_map.1 h
  exact ⟨id, field, List.snd_lt_of_mem_zipIdx hm, List.fst_mem_of_mem_zipIdx hm, rfl⟩

theorem lineTokens_ne_nil {t : List Char} (h : t ∈ lineTokens fields) : t ≠ [] := by
  obtain ⟨id, field, -, -, rfl⟩ := mem_lineTokens h
  simp

/-- The characters of a token: digits, spaces, and the sign between the numbers. -/
theorem lineTokens_plain (hfields : List.Forall₂ (Numeral type.base) values fields)
    {t : List Char} (h : t ∈ lineTokens fields) {c : Char} (hc : c ∈ t) :
    c ∉ [':', ';', '\n', Char.ofNat 0] := by
  have hnum : ∀ {base n : Nat} {s : List Char}, base ≤ 16 → Numeral base n s → c ∈ s →
      c ∉ [':', ';', '\n', Char.ofNat 0] := by
    intro base n s hb hs hc
    have := hs.plain hb hc
    simp only [List.mem_cons, not_or] at this ⊢
    exact ⟨this.2.2.2.2.1, this.2.2.2.2.2.1, this.2.2.2.2.2.2.2⟩
  obtain ⟨id, field, -, hfield, rfl⟩ := mem_lineTokens h
  rcases List.mem_append.1 hc with hc | hc
  · exact hnum (by decide) (numeral_toDigits (by decide : 1 < 10) (by decide) id) hc
  · rcases List.mem_cons.1 hc with rfl | hc
    · decide
    · obtain ⟨i, hi, rfl⟩ := List.mem_iff_getElem.1 hfield
      exact hnum type.base_bounds.2 (hfields.get (by rwa [hfields.length_eq]) hi) hc

/-- A label is a word of its own: no colon, no white space, nothing that ends a line. -/
def PlainLabel (label : String) : Prop :=
  ∀ c ∈ label.toList, isspace c = false ∧ c ∉ [':', '\n', Char.ofNat 0]

instance (label : String) : Decidable (PlainLabel label) := List.decidableBAll _ label.toList

theorem line_plain {label : String} (hlabel : PlainLabel label)
    (hfields : List.Forall₂ (Numeral type.base) values fields) {pad : Nat} {c : Char}
    (hc : c ∈ List.replicate pad ' '
      ++ (label.toList ++ ':' :: [';'].intercalate (lineTokens fields))) :
    c ∉ ['\n', Char.ofNat 0] := by
  rcases List.mem_append.1 hc with hc | hc
  · rw [List.eq_of_mem_replicate hc]
    decide
  rcases List.mem_append.1 hc with hc | hc
  · have := (hlabel c hc).2
    simp only [List.mem_cons, not_or] at this ⊢
    exact this.2
  · rcases List.mem_cons.1 hc with rfl | hc
    · decide
    · rcases mem_intercalate hc with rfl | ⟨t, ht, hct⟩
      · decide
      · have := lineTokens_plain hfields ht hct
        simp only [List.mem_cons, not_or] at this ⊢
        exact this.2.2

theorem PrintedLine.line_end {label : String} {line : List Char}
    (h : PrintedLine label type.base values line) (hlabel : PlainLabel label) :
    ∃ l, line = l ++ ['\n'] ∧ '\n' ∉ l := by
  obtain ⟨pad, fields, hfields, rfl⟩ := h
  refine ⟨_, rfl, fun hc => ?_⟩
  simpa using line_plain hlabel hfields hc

/-- The tokens set their values one after another. -/
theorem foldlM_lineTokens (hfields : List.Forall₂ (Numeral type.base) values fields) :
    ∀ {k : Nat} {schemata : Schemata}, (∀ v ∈ values, v < 2 ^ 64) → k + values.length ≤ 2 ^ 32 →
      ((fields.zipIdx k).map fun (field, id) => Nat.toDigits 10 id ++ '=' :: field).foldlM
          (schemataReadToken type) schemata
        = (values.zipIdx k).foldlM (fun s (v, i) => schemataSet i v type s) schemata := by
  induction hfields with
  | nil => exact fun _ _ => rfl
  | @cons v field values fields hfield hfields ih =>
    intro k schemata hv hlen
    rw [List.length_cons] at hlen
    have htoken := schemataReadToken_append type schemata (by omega : k < 2 ^ 32)
      (hv v List.mem_cons_self) hfield (Or.inl rfl)
    rw [List.append_nil] at htoken
    rw [List.zipIdx_cons, List.zipIdx_cons, List.map_cons, List.foldlM_cons, List.foldlM_cons,
      htoken]
    exact bind_congr fun s => ih (fun w hw => hv w (List.mem_cons_of_mem v hw)) (by omega)

/-- A printed line is read as the settings of its values, one after another. -/
theorem schemataReadLine_printed (schemata : Schemata) {label : String} {line : List Char}
    (hline : PrintedLine label type.base values line) (hlabel : PlainLabel label)
    (htype : schemataTypeGet label.toList = type) (hnone : type ≠ .none) (hne : values ≠ [])
    (hv : ∀ v ∈ values, v < 2 ^ 64) (hlen : values.length ≤ 2 ^ 32) :
    schemataReadLine schemata line
      = values.zipIdx.foldlM (fun s (v, i) => schemataSet i v type s) schemata := by
  obtain ⟨pad, fields, hfields, rfl⟩ := hline
  have hcstr : cstr (List.replicate pad ' '
      ++ (label.toList ++ ':' :: [';'].intercalate (lineTokens fields)) ++ ['\n'])
      = List.replicate pad ' '
        ++ (label.toList ++ ':' :: [';'].intercalate (lineTokens fields)) ++ ['\n'] := by
    refine List.takeWhile_eq_self_iff.2 fun c hc => ?_
    rcases List.mem_append.1 hc with hc | hc
    · have := line_plain hlabel hfields hc
      simp only [List.mem_cons, not_or] at this
      exact decide_eq_true this.2.1
    · rw [List.mem_singleton.1 hc]
      decide
  have hspace : (List.replicate pad ' '
      ++ (label.toList ++ ':' :: [';'].intercalate (lineTokens fields)) ++ ['\n']).dropWhile isspace
      = label.toList ++ ':' :: ([';'].intercalate (lineTokens fields) ++ ['\n']) := by
    rw [List.append_assoc, List.dropWhile_append_of_pos (fun c hc => by
      rw [List.eq_of_mem_replicate hc]; decide), List.append_assoc, List.cons_append]
    rcases hl : label.toList with _ | ⟨c, cs⟩
    · rfl
    · have := (hlabel c (by rw [hl]; exact List.mem_cons_self)).1
      rw [List.cons_append, List.dropWhile_cons_of_neg (by simp [this])]
  have hcolon : ':' ∉ label.toList := by
    intro h
    have := (hlabel _ h).2
    simp at this
  have hfne : fields ≠ [] := by
    rintro rfl
    exact hne (List.forall₂_nil_right_iff.1 hfields)
  have htokens : lineTokens fields ≠ [] := by simpa [lineTokens] using hfne
  have htail : ∀ t ∈ tailed ['\n'] (lineTokens fields), t ≠ [] ∧ ';' ∉ t := by
    intro t ht
    rcases mem_tailed ht with ht | ⟨u, hu, rfl⟩
    · exact ⟨lineTokens_ne_nil ht, fun hc => by simpa using lineTokens_plain hfields ht hc⟩
    · refine ⟨by simp, fun hc => ?_⟩
      rcases List.mem_append.1 hc with hc | hc
      · simpa using lineTokens_plain hfields hu hc
      · simp at hc
  have hread : ∀ t ∈ lineTokens fields, ∀ s,
      schemataReadToken type s (t ++ ['\n']) = schemataReadToken type s t := by
    intro t ht s
    obtain ⟨⟨field, id⟩, hm, rfl⟩ := List.mem_map.1 ht
    have hid : id < values.length := by
      rw [hfields.length_eq]
      exact List.snd_lt_of_mem_zipIdx hm
    obtain ⟨i, hi, hfield⟩ := List.mem_iff_getElem.1 (List.fst_mem_of_mem_zipIdx hm)
    have hi' : i < values.length := by rwa [hfields.length_eq]
    have hnum := hfields.get hi' hi
    have hvalue := hv _ (List.getElem_mem hi')
    simp only [List.get_eq_getElem] at hnum
    rw [hfield] at hnum
    have hend := schemataReadToken_append type s (by omega : id < 2 ^ 32) hvalue hnum (Or.inl rfl)
    rw [List.append_nil] at hend
    exact (schemataReadToken_append type s (by omega) hvalue hnum (Or.inr rfl)).trans hend.symm
  unfold schemataReadLine
  rw [hcstr, hspace, strchr_append hcolon]
  dsimp only
  rw [htype, if_neg hnone, intercalate_append ';' _ htokens, strtok_intercalate
    (tailed_ne_nil htokens) htail, foldlM_tailed hread]
  exact foldlM_lineTokens hfields hv (by omega)

end Line

/-! ## Entries -/

section Fill

variable {α : Type} {ok : α → Bool} {f : Nat → α → α}

/-- Setting every entry in turn replaces each by `f` of its value and of what was there. -/
theorem foldlM_setEntry {g : Schemata → Nat × Nat → Except Err Schemata} (put : List α → Schemata)
    (hg : ∀ l v i, g (put l) (v, i) = (setEntry ok (f v) i l).map put) :
    ∀ {values : List Nat} {ys : List α} (pre : List α), values.length = ys.length →
      (∀ y ∈ ys, ok y = true) → (values.zipIdx pre.length).foldlM g (put (pre ++ ys))
        = .ok (put (pre ++ List.zipWith f values ys))
  | [], [], pre, _, _ => by simp; rfl
  | v :: values, y :: ys, pre, hlen, hok => by
    have hset : setEntry ok (f v) pre.length (pre ++ y :: ys) = .ok ((pre ++ [f v y]) ++ ys) := by
      unfold setEntry
      rw [List.getElem?_append_right (Nat.le_refl _), Nat.sub_self, List.getElem?_cons_zero]
      dsimp only
      rw [if_pos (hok y List.mem_cons_self), List.set_append_right _ _ (Nat.le_refl _),
        Nat.sub_self, List.set_cons_zero, List.append_assoc]
      rfl
    have ih := foldlM_setEntry put hg (pre ++ [f v y]) (Nat.succ.inj hlen) fun z hz =>
      hok z (List.mem_cons_of_mem y hz)
    rw [List.length_append, List.length_singleton] at ih
    rw [List.zipIdx_cons, List.foldlM_cons, hg, hset]
    show List.foldlM g (put _) _ = _
    rw [ih, List.append_assoc]
    rfl

/-- Entries with the key of those written, given the values of those written, are those written. -/
theorem zipWith_restore {κ : Type} {key : α → κ} {h : α → α → α} :
    ∀ {xs ys : List α}, xs.map key = ys.map key → (∀ x ∈ xs, ∀ y, key x = key y → h x y = x) →
      List.zipWith h xs ys = xs
  | [], [], _, _ => rfl
  | x :: xs, y :: ys, hkey, hx => by
    rw [List.map_cons, List.map_cons, List.cons.injEq] at hkey
    rw [List.zipWith_cons_cons, hx x List.mem_cons_self y hkey.1,
      zipWith_restore hkey.2 fun z hz => hx z (List.mem_cons_of_mem x hz)]

theorem zipWith_zipWith_left {g h : α → α → α} :
    ∀ {xs ys : List α}, List.zipWith g xs (List.zipWith h xs ys)
      = List.zipWith (fun x y => g x (h x y)) xs ys
  | [], _ => rfl
  | _ :: _, [] => rfl
  | x :: xs, y :: ys => by
    rw [List.zipWith_cons_cons, List.zipWith_cons_cons, List.zipWith_cons_cons,
      zipWith_zipWith_left]

theorem mem_of_map_eq {κ : Type} {key : α → κ} {xs ys : List α} (h : xs.map key = ys.map key)
    {y : α} (hy : y ∈ ys) : ∃ x ∈ xs, key x = key y := by
  rw [← List.mem_map, h]
  exact List.mem_map_of_mem hy

/-- A line has no more values than characters. -/
theorem values_length_le {label : String} {base : Nat} {values : List Nat} {line : List Char}
    (hline : PrintedLine label base values line) (hlen : line.length < lineSize) :
    values.length ≤ 2 ^ 32 := by
  obtain ⟨pad, fields, hfields, rfl⟩ := hline
  have htokens : ∀ t ∈ lineTokens fields, t ≠ [] := fun t => lineTokens_ne_nil
  have := length_le_intercalate ';' htokens
  have hcount : (lineTokens fields).length = values.length := by
    rw [lineTokens, List.length_map, List.length_zipIdx, hfields.length_eq]
  simp only [List.length_append, List.length_cons, lineSize] at hlen
  omega

/-- A printed line of a list sets every entry. -/
theorem schemataReadLine_fills (type : SchemataType) {label : String} {values : List Nat}
    {line : List Char} (ys : List α) (put : List α → Schemata)
    (hline : PrintedLine label type.base values line) (hlabel : PlainLabel label)
    (htype : schemataTypeGet label.toList = type) (hnone : type ≠ .none)
    (hset : ∀ l v i, schemataSet i v type (put l) = (setEntry ok (f v) i l).map put)
    (hne : values ≠ []) (hlen : values.length ≤ 2 ^ 32) (hv : ∀ v ∈ values, v < 2 ^ 64)
    (hys : values.length = ys.length) (hok : ∀ y ∈ ys, ok y = true) :
    schemataReadLine (put ys) line = .ok (put (List.zipWith f values ys)) := by
  rw [schemataReadLine_printed (put ys) hline hlabel htype hnone hne hv hlen]
  exact foldlM_setEntry put (fun l v i => hset l v i) [] hys hok

/-- The line of a list, if it fits the buffer, sets every entry. -/
theorem schemataRead_fills (type : SchemataType) {label : String} {values : List Nat}
    (ys : List α) (put : List α → Schemata) (hlabel : PlainLabel label)
    (htype : schemataTypeGet label.toList = type) (hnone : type ≠ .none)
    (hset : ∀ l v i, schemataSet i v type (put l) = (setEntry ok (f v) i l).map put)
    (hlen : ∀ line ∈ schemataLinesOf label type.base values, line.length < lineSize)
    (hv : ∀ v ∈ values, v < 2 ^ 64) (hys : values.length = ys.length)
    (hok : ∀ y ∈ ys, ok y = true) :
    (schemataLinesOf label type.base values).foldlM schemataReadLine (put ys)
      = .ok (put (List.zipWith f values ys)) := by
  unfold schemataLinesOf at hlen ⊢
  by_cases hne : values = []
  · subst hne
    obtain rfl := List.length_eq_zero_iff.1 hys.symm
    rw [if_pos rfl]
    rfl
  · rw [if_neg hne] at hlen ⊢
    have hline := schemataLine_printed type.base_bounds.1 type.base_bounds.2 label values
    have hread := schemataReadLine_fills type ys put hline hlabel htype hnone hset hne
      (values_length_le hline (hlen _ (List.mem_singleton_self _))) hv hys hok
    rw [List.foldlM_cons, hread]
    rfl

/-- Read over entries of the same keys, it restores those it was written from. -/
theorem schemataRead_restores {κ : Type} {key : α → κ} (type : SchemataType) {label : String}
    {xs ys : List α} {v : α → Nat} (put : List α → Schemata) (hlabel : PlainLabel label)
    (htype : schemataTypeGet label.toList = type) (hnone : type ≠ .none)
    (hset : ∀ l v i, schemataSet i v type (put l) = (setEntry ok (f v) i l).map put)
    (hlen : ∀ line ∈ schemataLinesOf label type.base (xs.map v), line.length < lineSize)
    (hv : ∀ x ∈ xs, v x < 2 ^ 64) (hkey : xs.map key = ys.map key)
    (hok : ∀ y ∈ ys, ok y = true) (hrestore : ∀ x ∈ xs, ∀ y, key x = key y → f (v x) y = x) :
    (schemataLinesOf label type.base (xs.map v)).foldlM schemataReadLine (put ys)
      = .ok (put xs) := by
  have hcount : (xs.map v).length = ys.length := by
    simpa using congrArg List.length hkey
  rw [schemataRead_fills type ys put hlabel htype hnone hset hlen (List.forall_mem_map.2 hv) hcount
    hok, List.zipWith_map_left, zipWith_restore hkey hrestore]

end Fill

/-! ## The file -/

/-- The same entries, whatever masks and rates they hold. -/
structure Schemata.SameShape (s t : Schemata) : Prop where
  l3ca : s.l3ca.map (fun ca => (ca.classId, ca.cdp)) = t.l3ca.map fun ca => (ca.classId, ca.cdp)
  l2ca : s.l2ca.map L2ca.classId = t.l2ca.map L2ca.classId
  mba : s.mba.map Mba.classId = t.mba.map Mba.classId

section RoundTrip

variable {s old : Schemata}

variable (hlen : ∀ line ∈ schemataLines s, line.length < lineSize) (hshape : s.SameShape old)
include hlen hshape

theorem schemataRead_l2 :
    (schemataLinesOf "L2" 16 (s.l2ca.map fun ca => ca.waysMask.toNat)).foldlM schemataReadLine old
      = .ok { old with l2ca := s.l2ca } := by
  refine schemataRead_restores .l2 (fun l => { old with l2ca := l }) (by decide) rfl (by decide)
    (fun l v i => rfl) (fun line hline => hlen line ?_) (fun ca _ => ?_) hshape.l2ca
    (fun _ _ => rfl) (fun x _ y hkey => ?_)
  · simp only [schemataLines, List.mem_append]
    exact Or.inl (Or.inl hline)
  · have := ca.waysMask.isLt
    omega
  · rw [L2ca.withMask, BitVec.ofNat_toNat, BitVec.setWidth_eq, ← hkey]

theorem schemataRead_mb (hrate : ∀ ca ∈ s.mba, ca.mbRate < 2 ^ 32) :
    (schemataLinesOf "MB" 10 (s.mba.map Mba.mbRate)).foldlM schemataReadLine old
      = .ok { old with mba := s.mba } := by
  refine schemataRead_restores .mb (fun l => { old with mba := l }) (by decide) rfl (by decide)
    (fun l v i => rfl) (fun line hline => hlen line ?_) (fun ca hca => ?_) hshape.mba
    (fun _ _ => rfl) (fun x hx y hkey => ?_)
  · simp only [schemataLines, List.mem_append]
    exact Or.inr hline
  · have := hrate ca hca
    omega
  · rw [Mba.withRate, Nat.mod_eq_of_lt (hrate x hx), ← hkey]

theorem schemataRead_l3_ways (hcdp : ∀ ca ∈ s.l3ca, ca.cdp = false) :
    (schemataL3Lines s.l3ca).foldlM schemataReadLine old = .ok { old with l3ca := s.l3ca } := by
  have hhead : s.l3ca.head?.any L3ca.cdp = false := by
    rcases hl : s.l3ca with _ | ⟨ca, l⟩
    · rfl
    · exact hcdp ca (by rw [hl]; exact List.mem_cons_self)
  have hlines : schemataL3Lines s.l3ca
      = schemataLinesOf "L3" 16 (s.l3ca.map fun ca => ca.u.dataMask.toNat) := by
    rw [schemataL3Lines, hhead]
    rfl
  rw [hlines]
  refine schemataRead_restores .l3 (fun l => { old with l3ca := l }) (by decide) rfl (by decide)
    (fun l v i => rfl) (fun line hline => hlen line ?_) (fun ca _ => ?_) hshape.l3ca
    (fun y hy => ?_) (fun x hx y hkey => ?_)
  · simp only [schemataLines, List.mem_append, hlines]
    exact Or.inl (Or.inr hline)
  · exact ca.u.dataMask.isLt
  · obtain ⟨x, hx, hkey⟩ := mem_of_map_eq hshape.l3ca hy
    rw [← (Prod.mk.inj hkey).2, hcdp x hx]
    rfl
  · obtain ⟨hclass, -⟩ := Prod.mk.inj hkey
    have hx' := hcdp x hx
    obtain ⟨classId, m | ⟨d, c⟩⟩ := x
    · rw [L3ca.withWays, ← hclass]
      exact congrArg _ (congrArg _ (BitVec.ofNat_toNat 64 m))
    · cases hx'

theorem schemataRead_l3_pairs (hne : s.l3ca ≠ []) (hcdp : ∀ ca ∈ s.l3ca, ca.cdp = true) :
    (schemataL3Lines s.l3ca).foldlM schemataReadLine old = .ok { old with l3ca := s.l3ca } := by
  have hhead : s.l3ca.head?.any L3ca.cdp = true := by
    rcases hl : s.l3ca with _ | ⟨ca, l⟩
    · exact absurd hl hne
    · exact hcdp ca (by rw [hl]; exact List.mem_cons_self)
  have hlines : schemataL3Lines s.l3ca
      = schemataLinesOf "L3CODE" 16 (s.l3ca.map fun ca => ca.u.codeMask.toNat)
        ++ schemataLinesOf "L3DATA" 16 (s.l3ca.map fun ca => ca.u.dataMask.toNat) := by
    rw [schemataL3Lines, hhead]
    rfl
  have hline : ∀ line ∈ schemataL3Lines s.l3ca, line.length < lineSize := by
    intro line hline
    refine hlen line ?_
    simp only [schemataLines, List.mem_append]
    exact Or.inl (Or.inr hline)
  rw [hlines] at hline ⊢
  have hcount : s.l3ca.length = old.l3ca.length := by
    simpa using congrArg List.length hshape.l3ca
  have hpairs : ∀ y ∈ old.l3ca, y.cdp = true := by
    intro y hy
    obtain ⟨x, hx, hkey⟩ := mem_of_map_eq hshape.l3ca hy
    rw [← (Prod.mk.inj hkey).2, hcdp x hx]
  -- the code line leaves pairs with the new code masks, and the data line fills in the data masks
  let mid := List.zipWith L3ca.withCode (s.l3ca.map fun ca => ca.u.codeMask.toNat) old.l3ca
  have hmid : ∀ y ∈ mid, y.cdp = true := by
    intro y hy
    obtain ⟨i, hi, rfl⟩ := List.mem_iff_getElem.1 hy
    rw [List.getElem_zipWith]
    rfl
  have hmidCount : s.l3ca.length = mid.length := by
    rw [List.length_zipWith, List.length_map, hcount, Nat.min_self]
  have hcode := schemataRead_fills .l3code old.l3ca (fun l => { old with l3ca := l }) (by decide)
    rfl (by decide) (fun l v i => rfl) (fun line h => hline line (List.mem_append_left _ h))
    (List.forall_mem_map.2 fun ca _ => ca.u.codeMask.isLt) (by rw [List.length_map, hcount]) hpairs
  have hdata := schemataRead_fills .l3data mid (fun l => { old with l3ca := l }) (by decide)
    rfl (by decide) (fun l v i => rfl) (fun line h => hline line (List.mem_append_right _ h))
    (List.forall_mem_map.2 fun ca _ => ca.u.dataMask.isLt) (by rw [List.length_map, hmidCount]) hmid
  have hrestore : List.zipWith L3ca.withData (s.l3ca.map fun ca => ca.u.dataMask.toNat) mid
      = s.l3ca := by
    have hmidEq : mid = List.zipWith (fun x => L3ca.withCode x.u.codeMask.toNat) s.l3ca old.l3ca :=
      List.zipWith_map_left
    rw [hmidEq, List.zipWith_map_left, zipWith_zipWith_left]
    refine zipWith_restore hshape.l3ca fun x hx y hkey => ?_
    obtain ⟨hclass, -⟩ := Prod.mk.inj hkey
    have hx' := hcdp x hx
    obtain ⟨classId, m | ⟨d, c⟩⟩ := x
    · cases hx'
    · rw [L3ca.withData, L3ca.withCode, ← hclass]
      exact congrArg _ (congrArg₂ _ (BitVec.ofNat_toNat 64 d) (BitVec.ofNat_toNat 64 c))
  rw [hrestore] at hdata
  rw [List.foldlM_append]
  exact (congrArg (· >>= _) hcode).trans hdata

omit hlen hshape in
theorem schemataLine_end (type : SchemataType) {label : String} {values : List Nat}
    (hlabel : PlainLabel label) {line : List Char}
    (h : line ∈ schemataLinesOf label type.base values) : ∃ l, line = l ++ ['\n'] ∧ '\n' ∉ l := by
  unfold schemataLinesOf at h
  split_ifs at h
  · cases h
  · obtain ⟨hb, hb'⟩ := type.base_bounds
    rw [List.mem_singleton.1 h]
    exact (schemataLine_printed hb hb' label values).line_end hlabel

omit hlen hshape in
theorem schemataLines_end {line : List Char} (h : line ∈ schemataLines s) :
    ∃ l, line = l ++ ['\n'] ∧ '\n' ∉ l := by
  simp only [schemataLines, schemataL3Lines, List.mem_append] at h
  rcases h with (h | h) | h
  · exact schemataLine_end .l2 (by decide) h
  · split_ifs at h
    · rcases List.mem_append.1 h with h | h
      · exact schemataLine_end .l3code (by decide) h
      · exact schemataLine_end .l3data (by decide) h
    · exact schemataLine_end .l3 (by decide) h
  · exact schemataLine_end .mb (by decide) h

/-- Whatever masks and rates a structure of the same shape held, reading the text a structure was
written as gives that structure back. -/
theorem schemataRead_write (hrate : ∀ ca ∈ s.mba, ca.mbRate < 2 ^ 32)
    (hcdp : (∀ ca ∈ s.l3ca, ca.cdp = true) ∨ ∀ ca ∈ s.l3ca, ca.cdp = false) :
    schemataRead (schemataWrite s) old = .ok s := by
  have hlines : fgets lineSize (schemataLines s).flatten = schemataLines s :=
    fgets_lines fun line h => ⟨hlen line h, schemataLines_end h⟩
  have hl3 : ∀ old, s.SameShape old →
      (schemataL3Lines s.l3ca).foldlM schemataReadLine old = .ok { old with l3ca := s.l3ca } := by
    intro old hshape
    by_cases hne : s.l3ca = []
    · exact schemataRead_l3_ways hlen hshape (by simp [hne])
    · rcases hcdp with hcdp | hcdp
      · exact schemataRead_l3_pairs hlen hshape hne hcdp
      · exact schemataRead_l3_ways hlen hshape hcdp
  have hl3ca : s.SameShape { old with l2ca := s.l2ca } := ⟨hshape.l3ca, rfl, hshape.mba⟩
  have hmba : s.SameShape { old with l2ca := s.l2ca, l3ca := s.l3ca } := ⟨rfl, rfl, hshape.mba⟩
  unfold schemataRead schemataWrite
  rw [hlines, schemataLines, List.foldlM_append, List.foldlM_append, schemataRead_l2 hlen hshape]
  show (List.foldlM schemataReadLine _ _ >>= _) = _
  rw [hl3 _ hl3ca]
  exact schemataRead_mb hlen hmba hrate

end RoundTrip

/-- Two clusters, two sockets with CDP on, and rates. -/
def pairSchemata : Schemata :=
  ⟨[⟨1, .s 0xf 0x3⟩, ⟨1, .s 0xc 0x1⟩], [⟨1, 0xff⟩, ⟨1, 0x7⟩], [⟨1, 100⟩, ⟨1, 40⟩]⟩

/-- Read into the structure that a class starts with. -/
theorem schemataRead_write_pairs :
    schemataRead (schemataWrite pairSchemata)
        ⟨[⟨1, .s 0 0⟩, ⟨1, .s 0 0⟩], [⟨1, 0⟩, ⟨1, 0⟩], [⟨1, 100⟩, ⟨1, 100⟩]⟩
      = .ok pairSchemata :=
  schemataRead_write (by decide) ⟨rfl, rfl, rfl⟩ (by decide) (Or.inl (by decide))

end Pqos
