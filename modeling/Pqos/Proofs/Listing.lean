import Pqos.Proofs.SchemataFiles

/-!
# Schemata files that list everything

A schemata file lists a structure when it has a line for each kind of entry the structure has, in
any order and with any padding, and on the line a value for every id. What such a file is read as
does not depend on what the structure it is read into held: each line sets all of its own values and
none of another line's. A file that is read at all has no line that the buffer does not hold.
-/

namespace Pqos

open CText Prog

namespace SchemataType

def label : SchemataType → String
  | .none => ""
  | .l2 => "L2"
  | .l3 => "L3"
  | .l3code => "L3CODE"
  | .l3data => "L3DATA"
  | .mb => "MB"

/-- The lines of structures whose L3 entries are pairs, or of those where they are not. -/
def Fits (cdpOn : Bool) : SchemataType → Prop
  | .none => False
  | .l2 | .mb => True
  | .l3 => cdpOn = false
  | .l3code | .l3data => cdpOn = true

end SchemataType

namespace Schemata

variable {s t : Schemata}

/-- The values on the line of a type. -/
def values (s : Schemata) : SchemataType → List Nat
  | .none => []
  | .l2 => s.l2ca.map fun ca => ca.waysMask.toNat
  | .l3 | .l3data => s.l3ca.map fun ca => ca.u.dataMask.toNat
  | .l3code => s.l3ca.map fun ca => ca.u.codeMask.toNat
  | .mb => s.mba.map Mba.mbRate

/-- L3 entries are all pairs or all plain. -/
def Uniform (s : Schemata) (cdpOn : Bool) : Prop := ∀ ca ∈ s.l3ca, ca.cdp = cdpOn

/-- A text with a line for each type that has entries, and the values of these on it. -/
def Lists (cdpOn : Bool) (text : List Char) (s : Schemata) : Prop :=
  ∃ lines : List (SchemataType × List Char), text = (lines.map Prod.snd).flatten
    ∧ (∀ x ∈ lines, x.1.Fits cdpOn ∧ s.values x.1 ≠ []
      ∧ PrintedLine x.1.label x.1.base (s.values x.1) x.2)
    ∧ ∀ type : SchemataType, type.Fits cdpOn → s.values type ≠ [] → type ∈ lines.map Prod.fst

/-- From `s` to `t` a line of the type was read: it set its values, and no other line's. -/
structure LineSet (cdpOn : Bool) (type : SchemataType) (vals : List Nat) (s t : Schemata) :
    Prop where
  shape : t.SameShape s
  own : t.values type = vals
  other : ∀ type' : SchemataType, type'.Fits cdpOn → type' ≠ type → t.values type' = s.values type'

end Schemata

open Schemata

theorem Schemata.SameShape.values_length {s t : Schemata} (h : s.SameShape t)
    (type : SchemataType) :
    (s.values type).length = (t.values type).length := by
  have hl3 := congrArg List.length h.l3ca
  have hl2 := congrArg List.length h.l2ca
  have hmba := congrArg List.length h.mba
  simp only [List.length_map] at hl3 hl2 hmba
  cases type <;> simp [Schemata.values, hl3, hl2, hmba]

/-- What a line shows fits a machine word. -/
theorem Schemata.values_lt {s : Schemata} (hrates : s.RatesFit) (type : SchemataType) :
    ∀ v ∈ s.values type, v < 2 ^ 64 := by
  cases type with
  | none => exact fun v hv => nomatch hv
  | l2 =>
    refine List.forall_mem_map.2 fun ca _ => ?_
    exact ca.waysMask.isLt.trans (by decide)
  | l3 | l3data => exact List.forall_mem_map.2 fun ca _ => ca.u.dataMask.isLt
  | l3code => exact List.forall_mem_map.2 fun ca _ => ca.u.codeMask.isLt
  | mb =>
    refine List.forall_mem_map.2 fun ca hca => ?_
    exact (hrates ca hca).trans (by decide)

theorem map_zipWith_set {α β : Type} {f : β → α → α} {g : α → β} :
    ∀ {vals : List β} {ys : List α}, vals.length = ys.length →
      (∀ v ∈ vals, ∀ y ∈ ys, g (f v y) = v) → (List.zipWith f vals ys).map g = vals
  | [], [], _, _ => rfl
  | v :: vals, y :: ys, hlen, h => by
    rw [List.zipWith_cons_cons, List.map_cons, h v List.mem_cons_self y List.mem_cons_self,
      map_zipWith_set (Nat.succ.inj hlen) fun w hw z hz =>
        h w (List.mem_cons_of_mem v hw) z (List.mem_cons_of_mem y hz)]

theorem map_zipWith_keep {α β γ : Type} {f : β → α → α} {g : α → γ} :
    ∀ {vals : List β} {ys : List α}, vals.length = ys.length →
      (∀ v ∈ vals, ∀ y ∈ ys, g (f v y) = g y) → (List.zipWith f vals ys).map g = ys.map g
  | [], [], _, _ => rfl
  | v :: vals, y :: ys, hlen, h => by
    rw [List.zipWith_cons_cons, List.map_cons, h v List.mem_cons_self y List.mem_cons_self,
      List.map_cons, map_zipWith_keep (Nat.succ.inj hlen) fun w hw z hz =>
        h w (List.mem_cons_of_mem v hw) z (List.mem_cons_of_mem y hz)]

section Line

variable {cdpOn : Bool} {s st : Schemata} {type : SchemataType} {line : List Char}

/-- A line that fits the buffer is read, and sets its values. -/
theorem schemataReadLine_sets (hs : s.Uniform cdpOn) (hrates : s.RatesFit)
    (hshape : st.SameShape s) (hfits : type.Fits cdpOn) (hne : s.values type ≠ [])
    (hline : PrintedLine type.label type.base (s.values type) line)
    (hlen : line.length < lineSize) :
    ∃ st', schemataReadLine st line = .ok st' ∧ LineSet cdpOn type (s.values type) st st' := by
  have hcount := values_length_le hline hlen
  have hv := Schemata.values_lt hrates type
  have hlength := (hshape.values_length type).symm
  have hst : st.Uniform cdpOn := by
    intro y hy
    obtain ⟨x, hx, hkey⟩ := mem_of_map_eq hshape.l3ca.symm hy
    rw [← (Prod.mk.inj hkey).2, hs x hx]
  cases type with
  | none => exact hfits.elim
  | l2 =>
    have hys : (s.values .l2).length = st.l2ca.length := by simpa [Schemata.values] using hlength
    refine ⟨_, schemataReadLine_fills .l2 st.l2ca (fun l => { st with l2ca := l }) hline (by decide)
      rfl (by decide) (fun l v i => rfl) hne hcount hv hys (fun _ _ => rfl), ?_⟩
    refine ⟨⟨rfl, map_zipWith_keep hys fun _ _ _ _ => rfl, rfl⟩, map_zipWith_set hys ?_, ?_⟩
    · intro v hv y _
      obtain ⟨ca, -, rfl⟩ := List.mem_map.1 hv
      exact Nat.mod_eq_of_lt ca.waysMask.isLt
    · intro type' _ hne'
      cases type' <;> first | rfl | exact absurd rfl hne'
  | l3 =>
    have hys : (s.values .l3).length = st.l3ca.length := by simpa [Schemata.values] using hlength
    have hplain : ∀ y ∈ st.l3ca, y.cdp = false := fun y hy => (hst y hy).trans hfits
    refine ⟨_, schemataReadLine_fills .l3 st.l3ca (fun l => { st with l3ca := l }) hline (by decide)
      rfl (by decide) (fun l v i => rfl) hne hcount hv hys (fun y hy => by simp [hplain y hy]), ?_⟩
    refine ⟨⟨map_zipWith_keep hys fun _ _ y hy => ?_, rfl, rfl⟩,
      map_zipWith_set hys fun v hmem y _ => Nat.mod_eq_of_lt (hv v hmem), ?_⟩
    · rw [hplain y hy]
      rfl
    · intro type' hfits' hne'
      cases type' <;> first
        | rfl
        | exact absurd rfl hne'
        | exact absurd (hfits.symm.trans hfits') (by decide)
  -- the two halves of a class differ in the field they write, not in how they are read
  | l3code | l3data =>
    have hys := hlength.trans (show _ = st.l3ca.length by simp [Schemata.values])
    have hpair : ∀ y ∈ st.l3ca, y.cdp = true := fun y hy => (hst y hy).trans hfits
    refine ⟨_, schemataReadLine_fills _ st.l3ca (fun l => { st with l3ca := l }) hline
      (by decide) rfl (by decide) (fun l v i => rfl) hne hcount hv hys hpair, ?_⟩
    refine ⟨⟨map_zipWith_keep hys fun _ _ y hy => ?_, rfl, rfl⟩,
      map_zipWith_set hys fun v hmem y _ => Nat.mod_eq_of_lt (hv v hmem), ?_⟩
    · rw [hpair y hy]
      rfl
    · intro type' hfits' hne'
      cases type' with
      | l3code | l3data =>
        first | exact absurd rfl hne' | exact map_zipWith_keep hys fun _ _ _ _ => rfl
      | l3 => exact absurd (hfits.symm.trans hfits') (by decide)
      | none | l2 | mb => rfl
  | mb =>
    have hys : (s.values .mb).length = st.mba.length := by simpa [Schemata.values] using hlength
    refine ⟨_, schemataReadLine_fills .mb st.mba (fun l => { st with mba := l }) hline (by decide)
      rfl (by decide) (fun l v i => rfl) hne hcount hv hys (fun _ _ => rfl), ?_⟩
    refine ⟨⟨rfl, rfl, map_zipWith_keep hys fun _ _ _ _ => rfl⟩, map_zipWith_set hys ?_, ?_⟩
    · intro v hv y _
      obtain ⟨ca, hca, rfl⟩ := List.mem_map.1 hv
      exact Nat.mod_eq_of_lt (hrates ca hca)
    · intro type' _ hne'
      cases type' <;> first | rfl | exact absurd rfl hne'

theorem ext_of_maps {α β γ : Type} {f : α → β} {g : α → γ} :
    ∀ {l l' : List α}, l.map f = l'.map f → l.map g = l'.map g →
      (∀ a ∈ l, ∀ b ∈ l', f a = f b → g a = g b → a = b) → l = l'
  | [], [], _, _, _ => rfl
  | a :: l, b :: l', hf, hg, h => by
    rw [List.map_cons, List.map_cons, List.cons.injEq] at hf hg
    rw [h a List.mem_cons_self b List.mem_cons_self hf.1 hg.1, ext_of_maps hf.2 hg.2
      fun c hc d hd => h c (List.mem_cons_of_mem a hc) d (List.mem_cons_of_mem b hd)]

/-- Structures of one shape with the same values on all of their lines are the same. -/
theorem eq_of_values (hs : s.Uniform cdpOn) (hshape : st.SameShape s)
    (h : ∀ type : SchemataType, type.Fits cdpOn → st.values type = s.values type) : st = s := by
  have hl2 : st.l2ca = s.l2ca := by
    refine ext_of_maps hshape.l2ca (h .l2 trivial) fun a _ b _ hclass hmask => ?_
    obtain ⟨c, m⟩ := a
    obtain ⟨c', m'⟩ := b
    exact congrArg₂ _ hclass (BitVec.eq_of_toNat_eq hmask)
  have hmba : st.mba = s.mba := by
    refine ext_of_maps hshape.mba (h .mb trivial) fun a _ b _ hclass hrate => ?_
    obtain ⟨c, r⟩ := a
    obtain ⟨c', r'⟩ := b
    exact congrArg₂ _ hclass hrate
  have hl3 : st.l3ca = s.l3ca := by
    cases hcdp : cdpOn with
    | false =>
      rw [hcdp] at hs h
      refine ext_of_maps hshape.l3ca (h .l3 rfl) fun a _ b hb hkey hmask => ?_
      have hb := hs b hb
      obtain ⟨c, m | ⟨d, e⟩⟩ := a <;> obtain ⟨c', m' | ⟨d', e'⟩⟩ := b <;> cases hb <;> cases hkey
      exact congrArg _ (congrArg _ (BitVec.eq_of_toNat_eq hmask))
    | true =>
      rw [hcdp] at hs h
      have hcode := h .l3code rfl
      have hdata := h .l3data rfl
      have hboth : st.l3ca.map (fun ca => (ca.u.dataMask.toNat, ca.u.codeMask.toNat))
          = s.l3ca.map fun ca => (ca.u.dataMask.toNat, ca.u.codeMask.toNat) := by
        rw [← List.zip_map', ← List.zip_map']
        exact congrArg₂ _ hdata hcode
      refine ext_of_maps hshape.l3ca hboth fun a _ b hb hkey hmask => ?_
      have hb := hs b hb
      obtain ⟨hdata, hcode⟩ := Prod.mk.inj hmask
      obtain ⟨c, m | ⟨d, e⟩⟩ := a <;> obtain ⟨c', m' | ⟨d', e'⟩⟩ := b <;> cases hb <;> cases hkey
      exact congrArg _ (congrArg₂ _ (BitVec.eq_of_toNat_eq hdata) (BitVec.eq_of_toNat_eq hcode))
  obtain ⟨l3ca, l2ca, mba⟩ := st
  obtain ⟨l3ca', l2ca', mba'⟩ := s
  cases hl2
  cases hmba
  cases hl3
  rfl

theorem schemataReadLine_no_colon {buf : List Char} (h : ':' ∉ buf) :
    schemataReadLine st buf = .error .error := by
  have hnone : strchr ':' ((cstr buf).dropWhile isspace) = none := by
    refine strchr_eq_none fun hc => h ?_
    exact (List.takeWhile_prefix _).subset ((List.dropWhile_suffix _).subset hc)
  unfold schemataReadLine
  rw [hnone]

/-- A line with one colon. -/
def OneColon (line : List Char) : Prop :=
  ∃ l r, line = l ++ ':' :: r ++ ['\n'] ∧ ':' ∉ l ∧ ':' ∉ r ∧ '\n' ∉ l ++ ':' :: r

theorem PrintedLine.oneColon {vals : List Nat}
    (h : PrintedLine type.label type.base vals line) : OneColon line := by
  have hlabel : ∀ type : SchemataType, PlainLabel type.label := by
    intro type
    cases type <;> decide
  obtain ⟨pad, fields, hfields, rfl⟩ := h
  refine ⟨List.replicate pad ' ' ++ type.label.toList, [';'].intercalate (lineTokens fields),
    by simp, fun hc => ?_, fun hc => ?_, fun hc => ?_⟩
  · rcases List.mem_append.1 hc with hc | hc
    · exact absurd (List.eq_of_mem_replicate hc) (by decide)
    · simpa using (hlabel type _ hc).2
  · rcases mem_intercalate hc with hc | ⟨t, ht, hct⟩
    · exact absurd hc (by decide)
    · simpa using lineTokens_plain hfields ht hct
  · rw [List.append_assoc] at hc
    simpa using line_plain (hlabel type) hfields hc

/-- A line that the buffer does not hold is read in parts, and one of them has no colon. -/
theorem schemataRead_lines_fit {lines : List (List Char)} {t : Schemata}
    (hlines : ∀ line ∈ lines, OneColon line) (h : schemataRead lines.flatten st = .ok t) :
    ∀ line ∈ lines, line.length < lineSize := by
  induction lines generalizing st with
  | nil => simp
  | cons line lines ih =>
    obtain ⟨l, r, rfl, hl, hr, hnl⟩ := hlines line List.mem_cons_self
    have hsize : 1 < lineSize := by decide
    rw [schemataRead, List.flatten_cons, List.append_assoc, List.singleton_append] at h
    rcases Nat.lt_or_ge (l ++ ':' :: r).length (lineSize - 1) with hlen | hlen
    · rw [fgets, fgetsAll_line hnl hlen, List.nil_append, List.foldlM_cons, except_bind_ok] at h
      obtain ⟨st', -, hrest⟩ := h
      intro line' hline'
      rcases List.mem_cons.1 hline' with rfl | hline'
      · rw [List.length_append, List.length_singleton]
        omega
      · exact ih (fun line hm => hlines line (List.mem_cons_of_mem _ hm)) hrest line' hline'
    · exfalso
      rw [fgets, fgetsAll_cut hnl (by omega) hlen, List.nil_append, List.foldlM_cons,
        except_bind_ok] at h
      obtain ⟨st', hfirst, hrest⟩ := h
      by_cases hcolon : lineSize - 1 ≤ l.length
      · rw [List.take_append_of_le_length hcolon,
          schemataReadLine_no_colon fun hc => hl (List.mem_of_mem_take hc)] at hfirst
        cases hfirst
      · -- the colon was in the first part
        have hdrop : ∀ c ∈ (l ++ ':' :: r).drop (lineSize - 1), c ∈ r := by
          intro c hc
          rw [List.drop_append, List.drop_eq_nil_of_le (by omega), List.nil_append] at hc
          obtain ⟨k, hk⟩ := Nat.exists_eq_add_of_lt (Nat.lt_of_not_le hcolon)
          rw [hk, show l.length + k + 1 - l.length = k + 1 by omega, List.drop_succ_cons] at hc
          exact List.mem_of_mem_drop hc
        have hnl' : '\n' ∉ (l ++ ':' :: r).drop (lineSize - 1) := fun hc =>
          hnl (List.mem_of_mem_drop hc)
        obtain ⟨chunk, rest, hgets, hchunk⟩ := fgets_head hsize hnl' (s := lines.flatten)
        rw [fgets] at hgets
        rw [hgets, List.foldlM_cons, schemataReadLine_no_colon] at hrest
        · cases hrest
        · intro hc
          rcases hchunk _ hc with hc | hc
          · exact hr (hdrop _ hc)
          · cases hc

/-- Reading lines sets the values of those that were read. -/
theorem foldlM_lines {lines : List (SchemataType × List Char)} {t : Schemata}
    (hs : s.Uniform cdpOn) (hrates : s.RatesFit) (hshape : st.SameShape s)
    (hlines : ∀ x ∈ lines, x.1.Fits cdpOn ∧ s.values x.1 ≠ []
      ∧ PrintedLine x.1.label x.1.base (s.values x.1) x.2 ∧ x.2.length < lineSize)
    (h : (lines.map Prod.snd).foldlM schemataReadLine st = .ok t) :
    t.SameShape s ∧ ∀ type : SchemataType, type.Fits cdpOn →
      (st.values type = s.values type ∨ type ∈ lines.map Prod.fst) →
        t.values type = s.values type := by
  induction lines generalizing st with
  | nil =>
    cases h
    exact ⟨hshape, fun type _ hor => hor.resolve_right (by simp)⟩
  | cons x lines ih =>
    obtain ⟨hfits, hne, hline, hlen⟩ := hlines x List.mem_cons_self
    obtain ⟨st', hread, hset⟩ := schemataReadLine_sets hs hrates hshape hfits hne hline hlen
    rw [List.map_cons, List.foldlM_cons, hread] at h
    have hrest := ih (hset.shape.trans hshape) (fun y hy => hlines y (List.mem_cons_of_mem x hy)) h
    refine ⟨hrest.1, fun type htype hor => hrest.2 type htype ?_⟩
    by_cases heq : type = x.1
    · exact Or.inl (by rw [heq, hset.own])
    · rw [hset.other type htype heq]
      exact hor.imp_right fun hm => (List.mem_cons.1 hm).resolve_left heq

/-- A text that lists a structure is read as that structure or not at all. -/
theorem Schemata.Lists.read {text : List Char} {t : Schemata} (hlists : Lists cdpOn text s)
    (hs : s.Uniform cdpOn) (hrates : s.RatesFit) (hshape : st.SameShape s)
    (h : schemataRead text st = .ok t) : t = s := by
  obtain ⟨lines, rfl, hprinted, hall⟩ := hlists
  have hcolon : ∀ line ∈ lines.map Prod.snd, OneColon line := by
    intro line hline
    obtain ⟨x, hx, rfl⟩ := List.mem_map.1 hline
    exact (hprinted x hx).2.2.oneColon
  have hfit := schemataRead_lines_fit hcolon h
  have hgets : fgets lineSize (lines.map Prod.snd).flatten = lines.map Prod.snd := by
    refine fgets_lines fun line hline => ⟨hfit line hline, ?_⟩
    obtain ⟨l, r, rfl, -, -, hnl⟩ := hcolon line hline
    exact ⟨_, rfl, hnl⟩
  rw [schemataRead, hgets] at h
  obtain ⟨hshape', hvalues⟩ := foldlM_lines hs hrates hshape (fun x hx => by
    obtain ⟨hfits, hne, hline⟩ := hprinted x hx
    exact ⟨hfits, hne, hline, hfit _ (List.mem_map_of_mem hx)⟩) h
  refine eq_of_values hs hshape' fun type htype => hvalues type htype ?_
  by_cases hne : s.values type = []
  · refine Or.inl (hne ▸ List.length_eq_zero_iff.1 ?_)
    rw [hshape.values_length, hne, List.length_nil]
  · exact Or.inr (hall type htype hne)

end Line

end Pqos
