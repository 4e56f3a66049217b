import Pqos.Proofs.Listing

/-!
# What a setter leaves alone

A setter on the OS interface reads the whole schemata of a class, replaces one entry and writes all
of it back. In a kernel whose files list every entry of their class this changes the entry and
nothing else, and a class whose schemata cannot be read is not written. The setter of rates may read
the class once more to say what it has become; where that fails, the class was written.
-/

namespace Pqos

open CText Prog Schemata

/-! ## The kernel -/

/-- Whether a resource, if there is one, has the class. -/
def hasClass (numCos : Except Err Nat) (classId : Nat) : Bool :=
  match numCos with
  | .ok n => classId < n
  | .error _ => false

def Platform.cdpOn (p : Platform) : Bool := p.l3caCdpEnabled.toOption.getD false

/-- A class has an entry for every id of each resource that has the class, and L3 pairs if and only
if CDP is on. -/
structure HasEntries (p : Platform) (classId : Nat) (s : Schemata) : Prop where
  l3ca : s.l3ca.map (fun ca => (ca.classId, ca.cdp)) = List.replicate
    (if hasClass p.l3caGetCosNum classId then p.cpu.getSockets.length else 0) (classId, p.cdpOn)
  l2ca : s.l2ca.map L2ca.classId = List.replicate
    (if hasClass p.l2caGetCosNum classId then p.cpu.getL2ids.length else 0) classId
  mba : s.mba.map Mba.classId = List.replicate
    (if hasClass p.mbaGetCosNum classId then p.cpu.getSockets.length else 0) classId

/-- A kernel in which `alloc` is what the first `n` classes have. A schemata file lists it all, and
reading changes none of it. An accepted text changes no other class, and of its own class no entry
that it lists with the value the entry has. The step of the rates is a 32-bit number. -/
structure SchemataKernel {κ : Type} (p : Platform) (fs : Resctrl κ) (alloc : κ → Nat → Schemata)
    (n : Nat) : Prop where
  entries : ∀ k classId, classId < n → HasEntries p classId (alloc k classId)
  rates : ∀ k classId, classId < n → (alloc k classId).RatesFit
  reads : ∀ classId, Keeps (fun k k' => alloc k' = alloc k) (fs.read classId .schemata)
  read : ∀ {k classId text k'}, classId < n → (fs.read classId .schemata).run k = .ok text k' →
    Lists p.cdpOn text (alloc k classId)
  write : ∀ {k classId text s u k'}, classId < n → Lists p.cdpOn text s →
    HasEntries p classId s → s.RatesFit → (fs.write classId .schemata text).run k = .ok u k' →
    (∀ c ≠ classId, alloc k' c = alloc k c)
    ∧ (∀ i : Nat, s.l3ca[i]? = (alloc k classId).l3ca[i]? →
      (alloc k' classId).l3ca[i]? = (alloc k classId).l3ca[i]?)
    ∧ (∀ i : Nat, s.l2ca[i]? = (alloc k classId).l2ca[i]? →
      (alloc k' classId).l2ca[i]? = (alloc k classId).l2ca[i]?)
    ∧ ∀ i : Nat, s.mba[i]? = (alloc k classId).mba[i]? →
      (alloc k' classId).mba[i]? = (alloc k classId).mba[i]?
  step_lt : ∀ c, p.capGetType CapItem.mba? = .ok c → c.throttleStep < 2 ^ 32

inductive Resource
  | l3 | l2 | mba
deriving DecidableEq

/-- No entry but that of `id` of the resource changed. -/
structure OnlyEntry (r : Resource) (id : Nat) (s t : Schemata) : Prop where
  l3ca : ∀ i, (r = .l3 → i ≠ id) → t.l3ca[i]? = s.l3ca[i]?
  l2ca : ∀ i, (r = .l2 → i ≠ id) → t.l2ca[i]? = s.l2ca[i]?
  mba : ∀ i, (r = .mba → i ≠ id) → t.mba[i]? = s.mba[i]?

/-- No class but those of `classes` changed, and of these no entry but that of `id`. -/
def Scoped {κ : Type} (alloc : κ → Nat → Schemata) (r : Resource) (id : Nat) (classes : List Nat)
    (k k' : κ) : Prop :=
  ∀ c, (c ∈ classes → OnlyEntry r id (alloc k c) (alloc k' c))
    ∧ (c ∉ classes → alloc k' c = alloc k c)

/-! ## What is written lists what it is written from -/

section Write

variable {cdpOn : Bool} {s : Schemata}

/-- The line of a type, if the structure has one. -/
def taggedLine (s : Schemata) (type : SchemataType) : List (SchemataType × List Char) :=
  if s.values type = [] then [] else [(type, schemataLine type.label type.base (s.values type))]

theorem taggedLine_snd (s : Schemata) (type : SchemataType) :
    (taggedLine s type).map Prod.snd = schemataLinesOf type.label type.base (s.values type) := by
  unfold taggedLine schemataLinesOf
  split_ifs <;> rfl

theorem mem_taggedLine {type : SchemataType} {x : SchemataType × List Char}
    (h : x ∈ taggedLine s type) : x.1 = type ∧ s.values x.1 ≠ []
      ∧ PrintedLine x.1.label x.1.base (s.values x.1) x.2 := by
  unfold taggedLine at h
  split_ifs at h with hne
  · cases h
  · rw [List.mem_singleton.1 h]
    exact ⟨rfl, hne, schemataLine_printed type.base_bounds.1 type.base_bounds.2 _ _⟩

theorem mem_taggedLine_fst {type : SchemataType} (hne : s.values type ≠ []) :
    type ∈ (taggedLine s type).map Prod.fst := by
  rw [taggedLine, if_neg hne]
  exact List.mem_singleton_self _

def taggedLines (cdpOn : Bool) (s : Schemata) : List (SchemataType × List Char) :=
  taggedLine s .l2
    ++ (if cdpOn then taggedLine s .l3code ++ taggedLine s .l3data else taggedLine s .l3)
    ++ taggedLine s .mb

theorem taggedLines_snd (hs : s.Uniform cdpOn) :
    (taggedLines cdpOn s).map Prod.snd = schemataLines s := by
  have hl3 : (if cdpOn then taggedLine s .l3code ++ taggedLine s .l3data
      else taggedLine s .l3).map Prod.snd = schemataL3Lines s.l3ca := by
    rcases hne : s.l3ca with _ | ⟨ca, l⟩
    · have hnil : ∀ type, type ≠ .none → type ≠ .l2 → type ≠ .mb → taggedLine s type = [] := by
        intro type _ _ _
        unfold taggedLine Schemata.values
        rw [hne]
        cases type <;> simp_all
      cases cdpOn <;> simp [hnil, schemataL3Lines, schemataLinesOf]
    · have hhead : s.l3ca.head?.any L3ca.cdp = cdpOn := by
        rw [hne]
        exact hs ca (by rw [hne]; exact List.mem_cons_self)
      rw [← hne, schemataL3Lines, hhead]
      cases cdpOn
      · exact taggedLine_snd s .l3
      · rw [if_pos rfl, if_pos rfl, List.map_append, taggedLine_snd, taggedLine_snd]
        rfl
  rw [taggedLines, List.map_append, List.map_append, hl3, taggedLine_snd, taggedLine_snd]
  rfl

theorem schemataWrite_lists (hs : s.Uniform cdpOn) : Lists cdpOn (schemataWrite s) s := by
  refine ⟨taggedLines cdpOn s, by rw [taggedLines_snd hs, schemataWrite], fun x hx => ?_,
    fun type hfits hne => ?_⟩
  · have hmem : ∃ type : SchemataType, type.Fits cdpOn ∧ x ∈ taggedLine s type := by
      rcases List.mem_append.1 hx with hx | hx
      · rcases List.mem_append.1 hx with hx | hx
        · exact ⟨.l2, trivial, hx⟩
        · cases cdpOn with
          | false => exact ⟨.l3, rfl, hx⟩
          | true => exact (List.mem_append.1 hx).elim (⟨.l3code, rfl, ·⟩) (⟨.l3data, rfl, ·⟩)
      · exact ⟨.mb, trivial, hx⟩
    obtain ⟨type, hfits, hx⟩ := hmem
    obtain ⟨rfl, hline⟩ := mem_taggedLine hx
    exact ⟨hfits, hline⟩
  · have hmem := mem_taggedLine_fst hne
    unfold taggedLines
    rw [List.map_append, List.map_append, List.mem_append, List.mem_append]
    cases type with
    | none => exact hfits.elim
    | l2 => exact Or.inl (Or.inl hmem)
    | mb => exact Or.inr hmem
    | l3 =>
      obtain rfl : cdpOn = false := hfits
      exact Or.inl (Or.inr hmem)
    | l3code =>
      obtain rfl : cdpOn = true := hfits
      exact Or.inl (Or.inr (by rw [if_pos rfl, List.map_append]; exact List.mem_append_left _ hmem))
    | l3data =>
      obtain rfl : cdpOn = true := hfits
      exact Or.inl
        (Or.inr (by rw [if_pos rfl, List.map_append]; exact List.mem_append_right _ hmem))

end Write

/-! ## The structure read -/

section Init

variable {p : Platform} {classId : Nat} {s init : Schemata}

theorem schemataEntries_eq {α : Type} {num : Except Err Nat} {ids : List Nat} {a : α} :
    schemataEntries num classId ids (.ok a)
      = .ok (List.replicate (if hasClass num classId then ids.length else 0) a) := by
  unfold schemataEntries hasClass
  rcases num with e | m
  · rfl
  · by_cases h : classId < m <;> simp [h, Except.map]

theorem HasEntries.uniform (h : HasEntries p classId s) : s.Uniform p.cdpOn := by
  intro ca hca
  have hmem : (ca.classId, ca.cdp) ∈ s.l3ca.map fun ca => (ca.classId, ca.cdp) :=
    List.mem_map_of_mem hca
  rw [h.l3ca] at hmem
  exact (Prod.mk.inj (List.eq_of_mem_replicate hmem)).2

/-- The structure that a class's schemata is read into has the entries of the class. -/
theorem schemataInit_hasEntries (h : schemataInit p classId = .ok init) :
    HasEntries p classId init := by
  unfold schemataInit at h
  simp only [except_bind_ok] at h
  obtain ⟨l2ca, hl2, l3ca, hl3, mba, hmba, h⟩ := h
  cases h
  rw [schemataEntries_eq] at hl2 hmba
  cases hl2
  cases hmba
  refine ⟨?_, by rw [List.map_replicate], by rw [List.map_replicate]⟩
  unfold schemataEntries at hl3
  unfold hasClass
  rcases hnum : p.l3caGetCosNum with e | m
  · rw [hnum] at hl3
    cases hl3
    rfl
  · rw [hnum] at hl3
    dsimp only at hl3 ⊢
    by_cases hlt : classId < m
    · obtain ⟨c, hc, -⟩ := l3caGetCosNum_ok.1 hnum
      have hcdp : p.l3caCdpEnabled = .ok p.cdpOn := by
        rw [Platform.cdpOn, l3caCdpEnabled_ok.2 ⟨c, hc, rfl⟩]
        rfl
      rw [if_pos hlt, hcdp] at hl3
      cases hl3
      rw [List.map_replicate, if_pos (decide_eq_true hlt)]
      cases p.cdpOn <;> rfl
    · rw [if_neg hlt] at hl3
      cases hl3
      simp [hlt]

theorem HasEntries.sameShape (h : HasEntries p classId s) (h' : HasEntries p classId init) :
    s.SameShape init :=
  ⟨h.l3ca.trans h'.l3ca.symm, h.l2ca.trans h'.l2ca.symm, h.mba.trans h'.mba.symm⟩

end Init

/-! ## Frames -/

theorem OnlyEntry.refl (r : Resource) (id : Nat) (s : Schemata) : OnlyEntry r id s s :=
  ⟨fun _ _ => rfl, fun _ _ => rfl, fun _ _ => rfl⟩

theorem OnlyEntry.trans {r : Resource} {id : Nat} {s t u : Schemata} (h : OnlyEntry r id s t)
    (h' : OnlyEntry r id t u) : OnlyEntry r id s u :=
  ⟨fun i hi => (h'.l3ca i hi).trans (h.l3ca i hi), fun i hi => (h'.l2ca i hi).trans (h.l2ca i hi),
    fun i hi => (h'.mba i hi).trans (h.mba i hi)⟩

section Frames

variable {κ : Type} {p : Platform} {fs : Resctrl κ} {alloc : κ → Nat → Schemata} {n : Nat}
  {r : Resource} {id classId : Nat} {k k' k'' : κ}

theorem Scoped.refl (classes : List Nat) (k : κ) : Scoped alloc r id classes k k :=
  fun _ => ⟨fun _ => OnlyEntry.refl r id _, fun _ => rfl⟩

theorem Scoped.trans {cs ds : List Nat} (h : Scoped alloc r id cs k k')
    (h' : Scoped alloc r id ds k' k'') : Scoped alloc r id (cs ++ ds) k k'' := by
  intro c
  have hmoved : OnlyEntry r id (alloc k c) (alloc k' c) := by
    by_cases hc : c ∈ cs
    · exact (h c).1 hc
    · rw [(h c).2 hc]
      exact OnlyEntry.refl r id _
  refine ⟨fun _ => hmoved.trans ?_, fun hc => ?_⟩
  · by_cases hd : c ∈ ds
    · exact (h' c).1 hd
    · rw [(h' c).2 hd]
      exact OnlyEntry.refl r id _
  · rw [List.mem_append, not_or] at hc
    rw [(h' c).2 hc.2, (h c).2 hc.1]

variable (hk : SchemataKernel p fs alloc n) (hn : classId < n)

section Update

include hk

include hn

/-- The schemata of a class is read as what the class has. -/
theorem schemataGet_alloc {s : Schemata} (h : (schemataGet p fs classId).run k = .ok s k') :
    s = alloc k classId := by
  unfold schemataGet schemataReadFile readFile at h
  simp only [bind_ok, ofExcept_ok, mapError_ok] at h
  obtain ⟨init, k₀, ⟨hinit, rfl⟩, text, k₁, hread, hs, -⟩ := h
  have hent := hk.entries k₀ classId hn
  exact (hk.read hn hread).read hent.uniform (hk.rates _ classId hn)
    ((schemataInit_hasEntries hinit).sameShape hent) hs

end Update

end Frames

/-! ## Loops over a table -/

section Tables

variable {κ α β : Type} {p : Platform} {fs : Resctrl κ} {alloc : κ → Nat → Schemata} {k k₁ k₂ : κ}
  {pre post : List α} {a : α} {e : Err}

/-- A step that cannot read its class fails and changes nothing. -/
def StopsUnread (p : Platform) (fs : Resctrl κ) (alloc : κ → Nat → Schemata) (cls : α → Nat)
    (f : α → EStateM Err κ β) : Prop :=
  ∀ a k e k', (schemataGet p fs (cls a)).run k = .error e k' →
    ∃ e' k'', (f a).run k = .error e' k'' ∧ alloc k'' = alloc k

theorem StopsUnread.bind {γ : Type} {cls : α → Nat} {f : α → EStateM Err κ β}
    {g : α → β → EStateM Err κ γ} (hf : StopsUnread p fs alloc cls f) :
    StopsUnread p fs alloc cls fun a => f a >>= g a := by
  intro a k e k' h
  obtain ⟨e', k'', hrun, hsame⟩ := hf a k e k' h
  exact ⟨e', k'', bind_of_error hrun, hsame⟩

end Tables

/-! ## One class at a time -/

theorem setAt_ok {α : Type} {i : Nat} {a : α} {l l' : List α} (h : setAt i a l = .ok l') :
    l' = l.set i a ∧ i < l.length := by
  obtain ⟨b, hb, -, rfl⟩ := setEntry_ok h
  exact ⟨rfl, (List.getElem?_eq_some_iff.1 hb).1⟩

/-- An entry may be replaced by one of the same key. -/
theorem map_set_replicate {α β : Type} {key : α → β} {l : List α} {m : Nat} {b : β}
    (h : l.map key = List.replicate m b) (i : Nat) {a : α} (ha : key a = b) :
    (l.set i a).map key = List.replicate m b := by
  rw [List.map_set, h, ha]
  exact List.set_replicate_self

section Steps

variable {κ : Type} {p : Platform} {fs : Resctrl κ} {alloc : κ → Nat → Schemata} {n id : Nat}
  {k k' : κ} (hk : SchemataKernel p fs alloc n)

include hk

end Steps

/-! ## The setters -/

/-- A setter that succeeds keeps to the addressed entry of the classes of its table. One that after
the entries `pre` cannot read the class of the next fails, and writes no more than these. -/
structure SetterFrame {κ α β : Type} (p : Platform) (fs : Resctrl κ) (alloc : κ → Nat → Schemata)
    (n : Nat) (r : Resource) (id : Nat) (cls : α → Nat) (set : List α → EStateM Err κ β) :
    Prop where
  ok : ∀ {table k b k'}, (∀ a ∈ table, cls a < n) → (set table).run k = .ok b k' →
    Scoped alloc r id (table.map cls) k k'
  unread : ∀ {pre a post k b k₁ e k₂}, (set pre).run k = .ok b k₁ →
    (schemataGet p fs (cls a)).run k₁ = .error e k₂ →
    ∃ e' k', (set (pre ++ a :: post)).run k = .error e' k' ∧ (alloc k' = alloc k₁ ∨ k' = k)

section Setters

variable {κ α β : Type} {p : Platform} {fs : Resctrl κ} {alloc : κ → Nat → Schemata} {n : Nat}
  {r : Resource} {id : Nat} {cls : α → Nat}

/-- What a setter returns does not matter. -/
theorem SetterFrame.andThen {γ : Type} {set : List α → EStateM Err κ β} {g : β → γ}
    (h : SetterFrame p fs alloc n r id cls set) :
    SetterFrame p fs alloc n r id cls fun table => set table >>= fun b => pure (g b) where
  ok hn hrun := by
    obtain ⟨b, k₁, hrun, hk⟩ := bind_ok.1 hrun
    cases hk
    exact h.ok hn hrun
  unread hpre hread := by
    obtain ⟨b, k₁, hpre, hk⟩ := bind_ok.1 hpre
    cases hk
    obtain ⟨e', k', hrun, hsame⟩ := h.unread hpre hread
    exact ⟨e', k', bind_of_error hrun, hsame⟩

theorem Platform.cdpOn_eq {b : Bool} (h : p.l3caCdpEnabled = .ok b) : b = p.cdpOn := by
  rw [Platform.cdpOn, h]
  rfl

variable (hk : SchemataKernel p fs alloc n) (id : Nat)

include hk

end Setters

/-! ## A kernel -/

/-- Rates that are multiples of the platform's step, which rounding leaves as they are. -/
def Schemata.Settled (p : Platform) (s : Schemata) : Prop :=
  ∀ c, p.capGetType CapItem.mba? = .ok c → ∀ r ∈ s.mba, osMbaRate c.throttleStep r.mbRate = r.mbRate

instance (p : Platform) (s : Schemata) : Decidable (s.Settled p) :=
  match h : p.capGetType CapItem.mba? with
  | .error _ => isTrue fun c hc => by rw [h] at hc; cases hc
  | .ok c => decidable_of_iff (∀ r ∈ s.mba, osMbaRate c.throttleStep r.mbRate = r.mbRate)
    ⟨fun hall c' hc' => by rw [h] at hc'; cases hc'; exact hall, fun hset => hset c h⟩

section Demo

variable {κ : Type} {p : Platform} {n : Nat}

/-- The schemata of the classes, the first `n` with all their entries. -/
structure SchemataState (p : Platform) (n : Nat) where
  alloc : Nat → Schemata
  entries : ∀ c < n, HasEntries p c (alloc c)
  rates : ∀ c < n, (alloc c).RatesFit
  settled : ∀ c < n, (alloc c).Settled p

def SchemataState.put (k : SchemataState p n) (c : Nat) {s : Schemata} (h : (k.alloc c).Filled s)
    (hset : s.Settled p) : SchemataState p n where
  alloc := Function.update k.alloc c s
  entries c' hc' := by
    by_cases hc : c' = c
    · subst hc
      rw [Function.update_self]
      exact ⟨h.shape.l3ca.trans (k.entries c' hc').l3ca, h.shape.l2ca.trans (k.entries c' hc').l2ca,
        h.shape.mba.trans (k.entries c' hc').mba⟩
    · rw [Function.update_of_ne hc]
      exact k.entries c' hc'
  rates c' hc' := by
    by_cases hc : c' = c
    · subst hc
      rw [Function.update_self]
      exact h.rates (k.rates c' hc')
    · rw [Function.update_of_ne hc]
      exact k.rates c' hc'
  settled c' hc' := by
    by_cases hc : c' = c
    · subst hc
      rwa [Function.update_self]
    · rw [Function.update_of_ne hc]
      exact k.settled c' hc'

/-- What a class has after a text was written to its file: a text that cannot be read and a rate
between two steps are refused. -/
def SchemataState.take (k : SchemataState p n) (c : Nat) (text : List Char) :
    Option (SchemataState p n) :=
  match h : schemataRead text (k.alloc c) with
  | .error _ => none
  | .ok s => if hset : s.Settled p then some (k.put c (schemataRead_filled h) hset) else none

theorem SchemataState.take_some {k k' : SchemataState p n} {c : Nat} {text : List Char}
    (h : k.take c text = some k') : ∃ s, schemataRead text (k.alloc c) = .ok s
      ∧ k'.alloc = Function.update k.alloc c s := by
  unfold take at h
  split at h
  · cases h
  · next s hs =>
    split_ifs at h
    cases h
    exact ⟨s, hs, rfl⟩

/-- A text that is accepted is what the class has from then on. -/
theorem SchemataState.take_lists {k k' : SchemataState p n} {c : Nat} {text : List Char}
    {s : Schemata} (hc : c < n) (hlists : Lists p.cdpOn text s) (hs : HasEntries p c s)
    (hrates : s.RatesFit) (h : k.take c text = some k') :
    k'.alloc = Function.update k.alloc c s := by
  obtain ⟨t, ht, halloc⟩ := take_some h
  obtain rfl := hlists.read hs.uniform hrates ((k.entries c hc).sameShape hs) ht
  exact halloc

/-- Schemata files that print what a class has, and take what is written as the library would. -/
def listingFiles (p : Platform) (n : Nat) : Resctrl (SchemataState p n) where
  read classId file := do
    failIf (file ≠ .schemata) ()
    return schemataWrite ((← get).alloc classId)
  write classId file text := fun k =>
    if file ≠ .schemata then .error () k
    else
      match k.take classId text with
      | none => .error () k
      | some k' => .ok () k'
  taskExists _ _ := false

theorem listingFiles_kernel
    (hstep : ∀ c, p.capGetType CapItem.mba? = .ok c → c.throttleStep < 2 ^ 32) :
    SchemataKernel p (listingFiles p n) SchemataState.alloc n where
  entries k c hc := k.entries c hc
  rates k c hc := k.rates c hc
  reads c := Keeps.bind (Frame.eq _) (Keeps.failIf (Frame.eq _) _ _) fun _ k => rfl
  read {k c text k'} hc h := by
    cases h
    exact schemataWrite_lists (k.entries c hc).uniform
  write {k c text s u k'} hc hlists hs hrates h := by
    change (match k.take c text with
      | none => EStateM.Result.error () k
      | some k' => .ok () k') = .ok u k' at h
    rcases htake : k.take c text with _ | k₁ <;> rw [htake] at h <;> cases h
    rw [SchemataState.take_lists hc hlists hs hrates htake]
    simp only [Function.update_self]
    exact ⟨fun c' hc' => Function.update_of_ne hc' _ _, fun _ => id, fun _ => id, fun _ => id⟩
  step_lt := hstep

/-- L3 with CDP on, L2 and memory bandwidth. -/
def pairPlatform : Platform :=
  smallPlatform [⟨true, .l3ca ⟨4, 11, 0, true, true⟩⟩, ⟨true, .l2ca ⟨4, 8, 0⟩⟩,
    ⟨true, .mba ⟨4, 90, 10, true⟩⟩]

def pairState : SchemataState pairPlatform 4 where
  alloc c := ⟨[⟨c, .s 0x7f 0x3⟩], [⟨c, 0xf⟩, ⟨c, 0xf0⟩], [⟨c, 100⟩]⟩
  entries c hc := by
    have hclass : hasClass (.ok 4) c = true := decide_eq_true hc
    refine ⟨?_, ?_, ?_⟩
    · change _ = List.replicate (if hasClass (.ok 4) c then 1 else 0) (c, true)
      rw [hclass]
      rfl
    · change _ = List.replicate (if hasClass (.ok 4) c then 2 else 0) c
      rw [hclass]
      rfl
    · change _ = List.replicate (if hasClass (.ok 4) c then 1 else 0) c
      rw [hclass]
      rfl
  rates c hc r hr := by
    rw [List.mem_singleton.1 hr]
    exact (by decide : 100 < 2 ^ 32)
  settled c hc cap hcap r hr := by
    cases hcap
    rw [List.mem_singleton.1 hr]
    exact (by decide : osMbaRate 10 100 = 100)

theorem pairPlatform_kernel :
    SchemataKernel pairPlatform (listingFiles pairPlatform 4) SchemataState.alloc 4 :=
  listingFiles_kernel fun c hc => by cases hc; decide

end Demo

end Pqos
