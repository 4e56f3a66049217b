import Pqos.Selection
import Pqos.Proofs.NumberList
import Pqos.Lib.Prog

/-!
# The groups of a selection

A selection of cores is a list of parts, the cores outside the brackets and those inside. The parser
gives each part the room that is left in the table, and a list of numbers is cut to it without an
error. So the table has all the groups if each part has room for its cores, also the cores inside
one pair of brackets, which need only one entry; and where no entry is left, the next group is
written behind the table.
-/

namespace Pqos

open CText Distinct

/-! ## Parts -/

/-- Cores outside the brackets, or inside. -/
inductive Part (α : Type)
  | cores (a : α)
  | group (a : α)
deriving DecidableEq, Repr

namespace Part

variable {α β : Type}

def content : Part α → α
  | cores a => a
  | group a => a

def map (f : α → β) : Part α → Part β
  | cores a => cores (f a)
  | group a => group (f a)

@[simp] theorem content_map (f : α → β) (part : Part α) :
    (part.map f).content = f part.content := by
  cases part <;> rfl

/-- The groups of a part: one for each core, or one for all of them. -/
def groups : Part (List Nat) → List (List Nat)
  | cores values => values.eraseDups.map fun core => [core]
  | group values => [values.eraseDups]

/-- The room that a part needs. -/
def size : Part (List Nat) → Nat
  | cores values => values.eraseDups.length
  | group values => Nat.max 1 values.eraseDups.length

end Part

/-- The parts of a selection, of which the first has begun with `text`. -/
def splitParts : Bool → List Char → List Char → List (Part (List Char))
  | false, text, [] => [.cores text]
  | true, text, [] => [.group text]
  | false, text, c :: s =>
    if c = '[' then .cores text :: splitParts true [] s else splitParts false (text ++ [c]) s
  | true, text, c :: s =>
    if c = ']' then .group text :: splitParts false [] s else splitParts true (text ++ [c]) s

def selParts (s : List Char) : List (Part (List Char)) := splitParts false [] s

/-- The values that a list names. -/
def named (s : List Char) : List Nat := listed (namedItems s)

/-- What the parts of a selection name. -/
def namedParts (s : List Char) : List (Part (List Nat)) := (selParts s).map (Part.map named)

/-- There is room for each part, from an entry of the table on. -/
def HasRoom (max : Nat) : Nat → List (Part (List Nat)) → Prop
  | _, [] => True
  | index, part :: parts =>
    index + part.size ≤ max ∧ HasRoom max (index + part.groups.length) parts

theorem HasRoom.second {max index : Nat} {part next : Part (List Nat)}
    {parts : List (Part (List Nat))} (h : HasRoom max index (part :: next :: parts)) :
    index + part.groups.length + next.size ≤ max := h.2.1

/-- All cores are 32-bit numbers. -/
def Small (parts : List (Part (List Nat))) : Prop := ∀ part ∈ parts, ∀ v ∈ part.content, v < 2 ^ 32

/-! ## The parser goes from part to part -/

def addPart (max : Nat) (tab : List CoreGroup) : Part (List Char) → Except Halt (List CoreGroup)
  | .cores text => addNonGrp max text tab
  | .group text => addGrp max text tab

theorem strchr_length {c : Char} {s l r : List Char} (h : strchr c s = some (l, r)) :
    r.length < s.length := by
  induction s generalizing l with
  | nil => cases h
  | cons a s ih =>
    rw [strchr] at h
    split_ifs at h
    · cases h
      simp
    · obtain ⟨⟨l', r'⟩, hs, heq⟩ := Option.map_eq_some_iff.1 h
      cases heq
      have := ih hs
      simp only [List.length_cons]
      omega

theorem splitParts_cores (text s : List Char) : splitParts false text s
    = match strchr '[' s with
      | some (l, r) => .cores (text ++ l) :: splitParts true [] r
      | none => [.cores (text ++ s)] := by
  induction s generalizing text with
  | nil => simp [splitParts, strchr]
  | cons c s ih =>
    rw [splitParts, strchr]
    split_ifs with hc
    · simp
    · rw [ih]
      rcases strchr '[' s with _ | ⟨l, r⟩ <;> simp

theorem splitParts_group (text s : List Char) : splitParts true text s
    = match strchr ']' s with
      | some (l, r) => .group (text ++ l) :: splitParts false [] r
      | none => [.group (text ++ s)] := by
  induction s generalizing text with
  | nil => simp [splitParts, strchr]
  | cons c s ih =>
    rw [splitParts, strchr]
    split_ifs with hc
    · simp
    · rw [ih]
      rcases strchr ']' s with _ | ⟨l, r⟩ <;> simp

/-- The loop takes the parts one after another. -/
theorem strtocgrpsFrom_eq {max turns : Nat} {s : List Char} (tab : List CoreGroup)
    (h : s.length < turns) :
    strtocgrpsFrom max turns s tab = (selParts s).foldlM (addPart max) tab := by
  induction turns generalizing s tab with
  | zero => omega
  | succ turns ih =>
    rw [strtocgrpsFrom, selParts, splitParts_cores]
    rcases hopen : strchr '[' s with _ | ⟨l, r⟩
    · simp only [strsep, hopen, List.nil_append, List.foldlM_cons, List.foldlM_nil, addPart]
    · simp only [strsep, hopen, List.nil_append, List.foldlM_cons, addPart]
      refine congrArg _ (funext fun tab' => ?_)
      have hr := strchr_length hopen
      rw [splitParts_group]
      rcases hclose : strchr ']' r with _ | ⟨l', r'⟩
      · simp only [List.nil_append, List.foldlM_cons, List.foldlM_nil, addPart]
      · simp only [List.nil_append, List.foldlM_cons, addPart]
        have hr' := strchr_length hclose
        exact congrArg _ (funext fun tab'' => ih tab'' (by omega))

theorem strtocgrps_eq (s : List Char) (max : Nat) :
    strtocgrps s max = (selParts s).foldlM (addPart max) [] :=
  strtocgrpsFrom_eq [] (Nat.lt_succ_self _)

/-! ## One part -/

/-- A token of the list cannot be read. -/
def Unread (s : List Char) : Prop := ∃ t ∈ s.splitOn ',', readItem t = none

/-- What a list makes the code store in `room` entries. -/
def stored (s : List Char) (room : Nat) : List Nat :=
  ((namedItems s).flatMap (NumItem.walked room)).eraseDups.take room

/-- No range of 32-bit numbers ends at the largest value. -/
theorem stored_small {s : List Char} (h : ∀ v ∈ named s, v < 2 ^ 32) (room : Nat) :
    stored s room = (named s).eraseDups.take room := by
  have hends : ∀ item ∈ namedItems s, item.endsLast = false := by
    intro item hitem
    cases item with
    | empty => rfl
    | one n => rfl
    | range a b =>
      have hmem : Nat.max a b ∈ named s := by
        refine List.mem_flatMap.2 ⟨_, hitem, ?_⟩
        rw [NumItem.values, List.mem_range'_1]
        have hle : Nat.min a b ≤ Nat.max a b :=
          Nat.le_trans (Nat.min_le_left a b) (Nat.le_max_left a b)
        omega
      have := h _ hmem
      exact decide_eq_false (by omega)
  rw [stored, walked_eq_listed hends]
  rfl

theorem foldlM_putCgrp {max : Nat} {f : Nat → CoreGroup} {cbuf : List Nat} {tab : List CoreGroup}
    (h : tab.length + cbuf.length ≤ max) :
    cbuf.foldlM (fun tab core => putCgrp max tab (f core)) tab = .ok (tab ++ cbuf.map f) := by
  induction cbuf generalizing tab with
  | nil => simp [pure, Except.pure]
  | cons core cbuf ih =>
    rw [List.length_cons] at h
    rw [List.foldlM_cons, putCgrp, if_pos (by omega)]
    simp only [bind, Except.bind]
    rw [ih (by simp; omega)]
    simp

/-- The entries of a part whose list made the table `cbuf`. -/
def Part.entries (cbuf : List Nat) : Part (List Char) → List CoreGroup
  | cores _ => cbuf.map fun core => setCgrp (uinttostr (core % 2 ^ 32)) [core]
  | group text => [setCgrp text cbuf]

/-- A group that no entry is left for is written behind the table. -/
def Part.NoEntry (max : Nat) (tab : List CoreGroup) : Part (List Char) → Prop
  | cores _ => False
  | group _ => tab.length = max

section Parts

variable {max : Nat} {tab : List CoreGroup} {part : Part (List Char)}

theorem entries_lt {cbuf : List Nat} {cg : CoreGroup} (h : cg ∈ part.entries cbuf) {core : Nat}
    (hcore : core ∈ cg.cores) : core < 2 ^ 32 := by
  have hset : ∃ desc cores, cg = setCgrp desc cores := by
    cases part with
    | cores text =>
      obtain ⟨v, -, rfl⟩ := List.mem_map.1 h
      exact ⟨_, _, rfl⟩
    | group text => exact ⟨_, _, List.mem_singleton.1 h⟩
  obtain ⟨desc, cores, rfl⟩ := hset
  obtain ⟨v, -, rfl⟩ := List.mem_map.1 hcore
  exact Nat.mod_lt _ (by decide)

/-- What the parser does with the table of a part's list. -/
theorem addPart_table {cbuf : List Nat} (hlen : tab.length ≤ max)
    (hok : Main.strlisttotab part.content (max - tab.length) = .ok cbuf)
    (hcbuf : cbuf.length ≤ max - tab.length) :
    (addPart max tab part = .ok (tab ++ part.entries cbuf)
        ∧ (tab ++ part.entries cbuf).length ≤ max)
      ∨ addPart max tab part = .error .overrun ∧ part.NoEntry max tab := by
  cases part with
  | cores text =>
    left
    simp only [Part.content] at hok
    refine ⟨?_, by rw [List.length_append, Part.entries, List.length_map]; omega⟩
    rw [addPart, addNonGrp]
    split_ifs with hnil
    · subst hnil
      have hempty : listToTab [] (max - tab.length) = .ok [] := by
        unfold listToTab
        split_ifs <;> rfl
      obtain rfl : [] = cbuf := Except.ok.inj (hempty.symm.trans hok)
      rw [Part.entries, List.map_nil, List.append_nil]
    · rw [hok]
      simp only [bind, Except.bind]
      rw [if_neg (by omega), foldlM_putCgrp (by omega)]
      rfl
  | group text =>
    simp only [Part.content] at hok
    rw [addPart, addGrp, hok]
    simp only [bind, Except.bind]
    rw [if_neg (by omega), putCgrp]
    split_ifs with hroom
    · left
      refine ⟨rfl, ?_⟩
      rw [List.length_append, Part.entries, List.length_singleton]
      omega
    · right
      exact ⟨rfl, by unfold Part.NoEntry; omega⟩

theorem addPart_unread {part : Part (List Char)}
    (herr : Main.strlisttotab part.content (max - tab.length) = .error .exit) :
    addPart max tab part = .error .exit := by
  cases part with
  | cores text =>
    simp only [Part.content] at herr
    have hne : text ≠ [] := by
      rintro rfl
      unfold Main.strlisttotab listToTab at herr
      split_ifs at herr
      cases herr
    rw [addPart, addNonGrp, if_neg hne, herr]
    rfl
  | group text =>
    simp only [Part.content] at herr
    rw [addPart, addGrp, herr]
    rfl

theorem addPart_cases (part : Part (List Char)) (hmax : max < 2 ^ 64) (hlen : tab.length ≤ max) :
    (addPart max tab part = .ok (tab ++ part.entries (stored part.content (max - tab.length)))
        ∧ (tab ++ part.entries (stored part.content (max - tab.length))).length ≤ max)
      ∨ addPart max tab part = .error .overrun ∧ part.NoEntry max tab
      ∨ addPart max tab part = .error .exit ∧ Unread part.content := by
  rcases listToTab_cases part.content (by omega : max - tab.length < 2 ^ 64) with
    hok | ⟨herr, hun⟩
  · exact (addPart_table hlen hok (List.length_take_le _ _)).imp_right Or.inl
  · exact Or.inr (Or.inr ⟨addPart_unread herr, hun⟩)

/-- With room, the entries of a part have its groups. -/
theorem entries_cores {room : Nat} (hroom : (part.map named).size ≤ room)
    (h : ∀ v ∈ named part.content, v < 2 ^ 32) :
    (part.entries (stored part.content room)).map CoreGroup.cores = (part.map named).groups := by
  have hmod : ∀ v ∈ (named part.content).eraseDups, v % 2 ^ 32 = v := fun v hv =>
    Nat.mod_eq_of_lt (h v (List.mem_eraseDups.1 hv))
  rw [stored_small h]
  cases part with
  | cores text =>
    simp only [Part.map, Part.size, Part.content] at hroom hmod ⊢
    rw [Part.entries, List.take_of_length_le hroom, List.map_map]
    refine List.map_congr_left fun v hv => ?_
    rw [Function.comp_apply, setCgrp, List.map_cons, List.map_nil, hmod v hv]
  | group text =>
    simp only [Part.map, Part.size, Part.content] at hroom hmod ⊢
    have hle : (named text).eraseDups.length ≤ Nat.max 1 (named text).eraseDups.length :=
      Nat.le_max_right _ _
    rw [Part.entries, List.take_of_length_le (by omega)]
    simp only [List.map_cons, List.map_nil, Part.groups, setCgrp]
    rw [List.map_congr_left hmod, List.map_id']

/-- With room, no group is written behind the table. -/
theorem addPart_room (hmax : max < 2 ^ 64) (hroom : tab.length + (part.map named).size ≤ max)
    (h : ∀ v ∈ named part.content, v < 2 ^ 32) :
    (addPart max tab part = .ok (tab ++ part.entries (stored part.content (max - tab.length)))
        ∧ (part.entries (stored part.content (max - tab.length))).map CoreGroup.cores
          = (part.map named).groups)
      ∨ addPart max tab part = .error .exit ∧ Unread part.content := by
  have hlen : tab.length ≤ max := by omega
  rcases addPart_cases part hmax hlen with ⟨hok, -⟩ | ⟨-, hno⟩ | herr
  · exact Or.inl ⟨hok, entries_cores (by omega) h⟩
  · cases part with
    | cores text => exact hno.elim
    | group text =>
      have hone : 1 ≤ Nat.max 1 (named text).eraseDups.length := Nat.le_max_left _ _
      simp only [Part.NoEntry, Part.map, Part.size] at hno hroom
      omega
  · exact Or.inr herr

end Parts

/-! ## A whole selection -/

section Selection

variable {max : Nat} {parts : List (Part (List Char))} {tab final : List CoreGroup}

/-- With room for each part, the table has all the groups, unless a token cannot be read. -/
theorem addParts_room (hmax : max < 2 ^ 64)
    (hsmall : Small (parts.map (Part.map named)))
    (hroom : HasRoom max tab.length (parts.map (Part.map named))) :
    (∃ new, parts.foldlM (addPart max) tab = .ok (tab ++ new)
        ∧ new.map CoreGroup.cores = (parts.map (Part.map named)).flatMap Part.groups)
      ∨ parts.foldlM (addPart max) tab = .error .exit ∧ ∃ part ∈ parts, Unread part.content := by
  induction parts generalizing tab with
  | nil => exact Or.inl ⟨[], by simp [pure, Except.pure]⟩
  | cons part parts ih =>
    rw [List.map_cons] at hsmall hroom
    have hhead : ∀ v ∈ named part.content, v < 2 ^ 32 := by
      have := hsmall _ List.mem_cons_self
      rwa [Part.content_map] at this
    rw [List.foldlM_cons]
    rcases addPart_room hmax hroom.1 hhead with ⟨hok, hcores⟩ | ⟨herr, hun⟩
    · rw [hok]
      have hlength := congrArg List.length hcores
      rw [List.length_map] at hlength
      have hrest : HasRoom max
          (tab ++ part.entries (stored part.content (max - tab.length))).length
          (parts.map (Part.map named)) := by
        rw [List.length_append, hlength]
        exact hroom.2
      rcases ih (fun p hp => hsmall p (List.mem_cons_of_mem _ hp)) hrest with
        ⟨new, hnew, hgroups⟩ | ⟨herr, p, hp, hun⟩
      · refine Or.inl ⟨part.entries (stored part.content (max - tab.length)) ++ new, ?_, ?_⟩
        · rw [← List.append_assoc, ← hnew]
          rfl
        · rw [List.map_append, hcores, hgroups, List.map_cons, List.flatMap_cons]
      · exact Or.inr ⟨herr, p, List.mem_cons_of_mem _ hp, hun⟩
    · rw [herr]
      exact Or.inr ⟨rfl, part, List.mem_cons_self, hun⟩

/-- The table only grows, up to its end, and by 32-bit cores. -/
theorem addParts_grows (hmax : max < 2 ^ 64) (hlen : tab.length ≤ max)
    (h : parts.foldlM (addPart max) tab = .ok final) :
    final.length ≤ max
      ∧ ∃ new, final = tab ++ new ∧ ∀ cg ∈ new, ∀ core ∈ cg.cores, core < 2 ^ 32 := by
  induction parts generalizing tab with
  | nil =>
    obtain rfl : tab = final := Except.ok.inj h
    exact ⟨hlen, [], (List.append_nil _).symm, by simp⟩
  | cons part parts ih =>
    rw [List.foldlM_cons] at h
    rcases addPart_cases part hmax hlen with ⟨hok, hle⟩ | ⟨herr, -⟩ | ⟨herr, -⟩
    · rw [hok] at h
      obtain ⟨hfinal, new, rfl, hnew⟩ := ih hle h
      refine ⟨hfinal, part.entries (stored part.content (max - tab.length)) ++ new,
        List.append_assoc _ _ _, fun cg hcg core hcore => ?_⟩
      rcases List.mem_append.1 hcg with hcg | hcg
      · exact entries_lt hcg hcore
      · exact hnew cg hcg core hcore
    · rw [herr] at h
      cases h
    · rw [herr] at h
      cases h

/-- An error is never returned. -/
theorem addParts_ne_failed (hmax : max < 2 ^ 64) (hlen : tab.length ≤ max) :
    parts.foldlM (addPart max) tab ≠ .error .failed := by
  induction parts generalizing tab with
  | nil => intro h; cases h
  | cons part parts ih =>
    rw [List.foldlM_cons]
    rcases addPart_cases part hmax hlen with ⟨hok, hle⟩ | ⟨herr, -⟩ | ⟨herr, -⟩
    · rw [hok]
      exact ih hle
    · rw [herr]
      intro h
      cases h
    · rw [herr]
      intro h
      cases h

/-- Where the table has all the groups of a part, there was room for it. -/
theorem size_le_of_groups {part : Part (List Char)} {new : List CoreGroup}
    {groups : List (List Nat)}
    (hle : (tab ++ part.entries (stored part.content (max - tab.length))).length ≤ max)
    (hfinal : (tab ++ part.entries (stored part.content (max - tab.length)) ++ new).length ≤ max)
    (hsmall : ∀ v ∈ named part.content, v < 2 ^ 32)
    (hgroups : List.Forall₂ List.Perm
      ((tab ++ part.entries (stored part.content (max - tab.length)) ++ new).map CoreGroup.cores)
      (tab.map CoreGroup.cores ++ ((part.map named).groups ++ groups))) :
    tab.length + (part.map named).size ≤ max := by
  cases part with
  | cores text =>
    -- one entry for each core
    have hlength := hgroups.length_eq
    have hsum : (tab.map CoreGroup.cores
        ++ (((Part.cores text).map named).groups ++ groups)).length
        = tab.length + ((named text).eraseDups.length + groups.length) := by
      simp [Part.map, Part.groups]
    rw [List.length_map, hsum] at hlength
    simp only [Part.map, Part.size]
    omega
  | group text =>
    -- one entry, with all the cores
    rw [List.length_append, Part.entries, List.length_singleton] at hle
    rw [stored_small hsmall] at hgroups
    have hdrop := List.forall₂_drop tab.length hgroups
    simp only [Part.entries, Part.content, Part.map, Part.groups, List.map_append,
      List.append_assoc, List.map_cons, List.singleton_append,
      List.drop_left' (List.length_map CoreGroup.cores),
      List.forall₂_cons, setCgrp] at hdrop
    have hperm := hdrop.1.length_eq
    rw [List.length_map, List.length_take] at hperm
    have hmax : (named text).eraseDups.length ≤ max - tab.length := by omega
    have hsize : Nat.max 1 (named text).eraseDups.length ≤ max - tab.length :=
      Nat.max_le.2 ⟨by omega, hmax⟩
    simp only [Part.map, Part.size]
    omega

/-- Where the table has all the groups, there was room for each part. -/
theorem hasRoom_of_groups (hmax : max < 2 ^ 64) (hlen : tab.length ≤ max)
    (hsmall : Small (parts.map (Part.map named)))
    (h : parts.foldlM (addPart max) tab = .ok final)
    (hgroups : List.Forall₂ List.Perm (final.map CoreGroup.cores)
      (tab.map CoreGroup.cores ++ (parts.map (Part.map named)).flatMap Part.groups)) :
    HasRoom max tab.length (parts.map (Part.map named)) := by
  induction parts generalizing tab with
  | nil => trivial
  | cons part parts ih =>
    rw [List.map_cons] at hsmall hgroups ⊢
    rw [List.foldlM_cons] at h
    have hhead : ∀ v ∈ named part.content, v < 2 ^ 32 := by
      have := hsmall _ List.mem_cons_self
      rwa [Part.content_map] at this
    rcases addPart_cases part hmax hlen with ⟨hok, hle⟩ | ⟨herr, -⟩ | ⟨herr, -⟩
    · rw [hok] at h
      obtain ⟨hfinal, new, rfl, -⟩ := addParts_grows hmax hle h
      have hroom := size_le_of_groups hle hfinal hhead hgroups
      have hsize : (part.map named).size ≤ max - tab.length := by omega
      have hcores := entries_cores hsize hhead
      have hlength := congrArg List.length hcores
      rw [List.length_map] at hlength
      refine ⟨hroom, ?_⟩
      rw [List.flatMap_cons, ← hcores, ← List.append_assoc, ← List.map_append] at hgroups
      have hrest := ih hle (fun p hp => hsmall p (List.mem_cons_of_mem _ hp)) h hgroups
      rwa [List.length_append, hlength] at hrest
    · rw [herr] at h
      cases h
    · rw [herr] at h
      cases h

end Selection

/-! ## Written selections -/

/-- A selection as it is written: lists of cores, with groups in brackets between them that have a
core. -/
inductive SelText : List (Part (List NumItem)) → List Char → Prop
  | cores (items : List NumItem) (t : List Char) (ht : ListText items t) : SelText [.cores items] t
  | group (items grp : List NumItem) (t u : List Char) (ht : ListText items t)
      (hu : ListText grp u) (hgrp : listed grp ≠ []) {parts : List (Part (List NumItem))}
      {v : List Char} (hv : SelText parts v) :
      SelText (.cores items :: .group grp :: parts) (t ++ '[' :: (u ++ ']' :: v))

/-- The groups a selection denotes. -/
def denoted (parts : List (Part (List NumItem))) : List (List Nat) :=
  (parts.map (Part.map listed)).flatMap Part.groups

/-- The parser returns an error, or a table of exactly the groups. -/
def GroupsAll (parts : List (Part (List NumItem))) (s : List Char) (max : Nat) : Prop :=
  strtocgrps s max = .error .failed
    ∨ ∃ tab, strtocgrps s max = .ok tab
      ∧ List.Forall₂ List.Perm (tab.map CoreGroup.cores) (denoted parts)

/-- All cores are 32-bit numbers, and there is room for each part. -/
def Fits (parts : List (Part (List Nat))) (max : Nat) : Prop := Small parts ∧ HasRoom max 0 parts

section Written

variable {max : Nat} {parts : List (Part (List NumItem))} {s t : List Char} {items : List NumItem}

theorem ListText.plain (h : ListText items t) {c : Char} (hc : c ∈ t) : c ∉ ['[', ']', ';'] := by
  obtain ⟨-, texts, htexts, rfl⟩ := h
  intro hmem
  rcases mem_intercalate hc with rfl | ⟨u, hu, hcu⟩
  · revert hmem
    decide
  · exact plain_of_mem htexts hu hcu (List.mem_cons_of_mem _ hmem)

theorem ListText.named (h : ListText items t) : named t = listed items := by
  rw [Pqos.named, h.namedItems]

theorem ListText.not_unread (h : ListText items t) : ¬ Unread t := by
  rintro ⟨u, hu, hnone⟩
  have hmem : none ∈ items.map some := by
    rw [← h.splitOn, ← hnone]
    exact List.mem_map_of_mem hu
  simp at hmem

theorem selParts_last (h : '[' ∉ t) : selParts t = [.cores t] := by
  rw [selParts, splitParts_cores, strchr_eq_none h, List.nil_append]

theorem selParts_group {u v : List Char} (ht : '[' ∉ t) (hu : ']' ∉ u) :
    selParts (t ++ '[' :: (u ++ ']' :: v)) = .cores t :: .group u :: selParts v := by
  rw [selParts, splitParts_cores, strchr_append ht]
  simp only [List.nil_append]
  rw [splitParts_group, strchr_append hu]
  rfl

theorem SelText.namedParts (h : SelText parts s) : namedParts s = parts.map (Part.map listed) := by
  induction h with
  | cores items t ht =>
    rw [Pqos.namedParts, selParts_last fun hc => ht.plain hc (by simp)]
    simp only [List.map_cons, List.map_nil, Part.map, ht.named]
  | group items grp t u ht hu _ _ ih =>
    rw [Pqos.namedParts, selParts_group (fun hc => ht.plain hc (by simp))
      fun hc => hu.plain hc (by simp)]
    rw [Pqos.namedParts] at ih
    simp only [List.map_cons, Part.map, ht.named, hu.named, ih]

theorem SelText.not_unread (h : SelText parts s) {part : Part (List Char)}
    (hpart : part ∈ selParts s) : ¬ Unread part.content := by
  induction h with
  | cores items t ht =>
    rw [selParts_last fun hc => ht.plain hc (by simp), List.mem_singleton] at hpart
    rw [hpart]
    exact ht.not_unread
  | group items grp t u ht hu _ _ ih =>
    rw [selParts_group (fun hc => ht.plain hc (by simp)) fun hc => hu.plain hc (by simp)] at hpart
    rcases List.mem_cons.1 hpart with rfl | hpart
    · exact ht.not_unread
    rcases List.mem_cons.1 hpart with rfl | hpart
    · exact hu.not_unread
    · exact ih hpart

/-- A value of a part is in one of its groups. -/
theorem exists_group {part : Part (List Nat)} {v : Nat} (h : v ∈ part.content) :
    ∃ group ∈ part.groups, v ∈ group := by
  cases part with
  | cores values =>
    exact ⟨[v], List.mem_map.2 ⟨v, List.mem_eraseDups.2 h, rfl⟩, List.mem_singleton_self v⟩
  | group values => exact ⟨_, List.mem_singleton_self _, List.mem_eraseDups.2 h⟩

theorem small_of_groups {cores : List (List Nat)} {parts : List (Part (List Nat))}
    (h : ∀ group ∈ cores, ∀ core ∈ group, core < 2 ^ 32)
    (hperm : List.Forall₂ List.Perm cores (parts.flatMap Part.groups)) : Small parts := by
  intro part hpart v hv
  obtain ⟨group, hgroup, hv⟩ := exists_group hv
  have hmem : group ∈ parts.flatMap Part.groups := List.mem_flatMap.2 ⟨part, hpart, hgroup⟩
  clear hpart hgroup
  revert h
  generalize parts.flatMap Part.groups = groups at hperm hmem
  induction hperm with
  | nil => cases hmem
  | cons hcore _ ih =>
    intro h
    rcases List.mem_cons.1 hmem with rfl | hmem
    · exact h _ List.mem_cons_self v (hcore.mem_iff.2 hv)
    · exact ih hmem fun group hgroup => h group (List.mem_cons_of_mem _ hgroup)

theorem groupsAll_iff (hmax : max < 2 ^ 64) (h : SelText parts s) :
    GroupsAll parts s max ↔ Fits (parts.map (Part.map listed)) max := by
  have hempty : ([] : List CoreGroup).length ≤ max := Nat.zero_le max
  unfold GroupsAll denoted
  rw [strtocgrps_eq, ← h.namedParts]
  constructor
  · rintro (herr | ⟨tab, hok, hperm⟩)
    · exact absurd herr (addParts_ne_failed hmax hempty)
    · obtain ⟨-, new, rfl, hnew⟩ := addParts_grows hmax hempty hok
      have hsmall : Small (namedParts s) := by
        refine small_of_groups (fun group hgroup => ?_) hperm
        obtain ⟨cg, hcg, rfl⟩ := List.mem_map.1 hgroup
        exact hnew cg hcg
      exact ⟨hsmall, hasRoom_of_groups hmax hempty hsmall hok hperm⟩
  · rintro ⟨hsmall, hroom⟩
    have hfirst : HasRoom max ([] : List CoreGroup).length (namedParts s) := hroom
    rcases addParts_room hmax hsmall hfirst with ⟨new, hok, hgroups⟩ | ⟨-, part, hpart, hun⟩
    · refine Or.inr ⟨_, hok, ?_⟩
      rw [List.nil_append, hgroups]
      exact List.forall₂_same.2 fun group _ => List.Perm.refl group
    · exact absurd hun (h.not_unread hpart)

/-- The parser has all the groups of a selection, and stays in the table, exactly if the cores are
32-bit numbers and each part has room for its cores behind the groups before it. -/
theorem strtocgrps_groupsAll_iff (hmax : max ≤ pqosMaxCores) (h : SelText parts s) :
    GroupsAll parts s max ↔ Fits (parts.map (Part.map listed)) max :=
  groupsAll_iff (Nat.lt_of_le_of_lt hmax (by decide)) h

end Written

/-- A list of one range. -/
theorem listText_range {t u : List Char} {a b : Nat} (ht : NumText t a) (hu : NumText u b) :
    ListText [.range a b] (t ++ '-' :: u) :=
  ⟨List.cons_ne_nil _ _, [t ++ '-' :: u], .cons (.range [] t u (by simp) ht hu) .nil,
    by simp [List.intercalate]⟩

theorem listText_one {t : List Char} {n : Nat} (ht : NumText t n) : ListText [.one n] t :=
  ⟨List.cons_ne_nil _ _, [t], .cons (.one [] t (by simp) ht) .nil, by simp [List.intercalate]⟩

theorem listText_nil : ListText [.empty] [] :=
  ⟨by decide, [[]], .cons (.empty [] (by simp)) .nil, by decide⟩

/-- A core and a group of three, with room for both. -/
theorem strtocgrps_groupsAll_mixed :
    GroupsAll [.cores [.one 7], .group [.range 0 2], .cores [.empty]] "7[0-2]".toList 4 := by
  have hfits : Fits [.cores [7], .group [0, 1, 2], .cores []] 4 :=
    ⟨by simp [Small, Part.content], by decide, by decide, by decide, trivial⟩
  have hrange : ListText [.range 0 2] "0-2".toList :=
    listText_range (t := ['0']) (u := ['2'])
      (numText_of_decimal (by decide) (by decide) (by decide) (by decide))
      (numText_of_decimal (by decide) (by decide) (by decide) (by decide))
  have hone : ListText [.one 7] ['7'] :=
    listText_one (numText_of_decimal (by decide) (by decide) (by decide) (by decide))
  exact (strtocgrps_groupsAll_iff (by decide) <|
    .group _ _ _ _ hone hrange (by decide) (.cores [.empty] [] listText_nil)).2 hfits

/-- Every entry of the table is taken, and a group follows. -/
def fullAndGroup : List (Part (List NumItem)) :=
  [.cores [.range 0 511], .group [.one 512], .cores [.empty]]

theorem fullAndGroup_text : SelText fullAndGroup "0-511[512]".toList :=
  .group [.range 0 511] [.one 512] "0-511".toList "512".toList
    (listText_range (t := ['0']) (u := "511".toList)
      (numText_of_decimal (by decide) (by decide) (by decide) (by decide))
      (numText_of_decimal (by decide) (by decide) (by decide) (by decide)))
    (listText_one (numText_of_decimal (by decide) (by decide) (by decide) (by decide)))
    (by decide) (.cores [.empty] [] listText_nil)

/-- The group is written behind the table. -/
theorem strtocgrps_full :
    ¬ ∀ parts s max, 0 < max → max ≤ pqosMaxCores → SelText parts s → GroupsAll parts s max := by
  intro h
  have hgroups := h fullAndGroup _ pqosMaxCores (by decide) (by decide) fullAndGroup_text
  rw [groupsAll_iff (by decide) fullAndGroup_text] at hgroups
  have hfull : (listed [.range 0 511]).eraseDups.length = 512 := by
    have hlist : listed [.range 0 511] = List.range' 0 512 := by simp [listed, NumItem.values]
    rw [hlist, eraseDups_of_nodup List.nodup_range', List.length_range']
  have hnext : 0 + (Part.cores (listed [.range 0 511])).groups.length
      + (Part.group (listed [.one 512])).size ≤ pqosMaxCores := HasRoom.second hgroups.2
  have hlength : (Part.cores (listed [.range 0 511])).groups.length = 512 := by
    rw [Part.groups, List.length_map, hfull]
  have hone : 1 ≤ (Part.group (listed [.one 512])).size := Nat.le_max_left _ _
  rw [hlength, pqosMaxCores] at hnext
  omega

end Pqos
