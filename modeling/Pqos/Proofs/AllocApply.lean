import Pqos.AllocApply
import Pqos.Proofs.AllocOpts
import Pqos.Proofs.AssocSelect
import Pqos.Proofs.MsrStore

/-!
# What definitions mean

A definition means settings, one for each class it names and each socket or L2 cluster, up to the
first part that cannot be read. A run that returns success has made all that the options mean. Any
other run, exits included, has made the first of the settings, and may have left the next one half
made.
-/

namespace Pqos

open CText Prog Refine

/-! ## Settings -/

inductive Setting
  | l3 (socket classId : Nat) (scope : UpdateScope) (mask : Word)
  | l2 (l2id classId : Nat) (mask : BitVec 32)
  | mba (socket classId rate : Nat)
  | core (lcore classId : Nat)
  | task (t classId : Nat)
deriving DecidableEq

namespace Setting

/-- A class of L3 keeps the masks that are not in the scope. -/
def put (rules : StoreRules) : Setting → Store → Store
  | .l3 socket c scope mask, a =>
    match a.l3 (socket, c) with
    | some m => Store.putL3 rules.cdpOn socket ((L3ca.mk c m).withMask scope mask) a
    | none => a
  | .l2 l2id c mask, a => Store.putL2 l2id ⟨c, mask⟩ a
  | .mba socket c rate, a => Store.putMba rules.rate socket ⟨c, rate⟩ a
  | .core lcore c, a => Store.move c [lcore] a
  | .task t c, a => Store.moveTasks c [t] a

/-- Of two masks the one for data may be set alone. -/
def half (rules : StoreRules) : Setting → Store → Store → Prop
  | .l3 socket c scope mask, a, a' => ∃ m, a.l3 (socket, c) = some m
      ∧ Store.halfL3 rules.cdpOn socket ((L3ca.mk c m).withMask scope mask) a a'
  | _, _, _ => False

end Setting

/-! ## What texts mean -/

section Reading

variable (cpu : CpuInfo)

/-- The settings of one class on the ids. -/
def cosSettings (type : SelAllocType) (resIds : Option (List Nat)) (scope : UpdateScope)
    (classId : Nat) (value : Word) : List Setting :=
  match type with
  | .l3ca => (resIds.getD cpu.getSockets).map fun socket => .l3 socket classId scope value
  | .l2ca => (resIds.getD cpu.getL2ids).map fun l2id => .l2 l2id classId (value.setWidth 32)
  | .mba => (resIds.getD cpu.getSockets).map fun socket =>
    .mba socket classId (value.setWidth 32).toNat

/-- What a class and its value mean, if they can be read. -/
def readCos (type : SelAllocType) (resIds : Option (List Nat)) (str : List Char) :
    Option (List Setting) := do
  let (cls, text) ← strchr '=' str
  let (scope, classId) ← (parseCosMaskType cls).toOption
  let n ← (numberOf text).toOption
  let settings := cosSettings cpu type resIds scope classId (BitVec.ofNat 64 n)
  if BitVec.ofNat 64 n = 0 ∨ (type = .l2ca ∧ scope ≠ .both) ∨ settings = [] then none
  else some settings

/-- What a part of a text means, and whether it can be read to its end, and then the rest. -/
def andThen (l l' : List Setting × Bool) : List Setting × Bool :=
  if l.2 then (l.1 ++ l'.1, l'.2) else l

def readAll {α : Type} (f : α → List Setting × Bool) : List α → List Setting × Bool
  | [] => ([], true)
  | a :: l => andThen (f a) (readAll f l)

/-- Nothing, where it cannot be read. -/
def orNone : Option (List Setting) → List Setting × Bool
  | some l => (l, true)
  | none => ([], false)

def readToken (type : SelAllocType) (resIds : Option (List Nat)) (str : List Char) :
    List Setting × Bool := orNone (readCos cpu type resIds str)

def readTokens (type : SelAllocType) (resIds : Option (List Nat)) (tokens : List (List Char)) :
    List Setting × Bool :=
  if tokens = [] then ([], false) else readAll (readToken cpu type resIds) tokens

/-- The ids of a definition, `none` inside for those that it is for by default. -/
def readResIds : Option (List Char) → Option (Option (List Nat))
  | none => some none
  | some list =>
    match listToTab list maxResSz with
    | .ok ids => if ids = [] ∨ ∃ id ∈ ids, maxResSz ≤ id then none else some (some ids)
    | .error _ => none

def readClass (str : List Char) : List Setting × Bool :=
  match classText str with
  | none => ([], false)
  | some t =>
    match readResIds t.resIds, selAllocType t.type with
    | some resIds, some type => readTokens cpu type resIds (strtok ',' t.cos)
    | _, _ => ([], false)

end Reading

/-! ## One setting -/

section Turn

variable {σ : Type} {b : PidBackend σ} {view : σ → Store} {rules : StoreRules}
  {Fits : AllocCall → Prop}

/-- The back end takes every call, for L3 where the class is there. -/
structure Takes (view : σ → Store) (Fits : AllocCall → Prop) : Prop where
  l3caSet : ∀ {s socket} {e : L3ca}, ((view s).l3 (socket, e.classId)).isSome →
    Fits (.l3caSet socket [e])
  other : ∀ {call}, (∀ socket ca, call ≠ .l3caSet socket ca) → Fits call

/-- A table with one entry for each class has the one that is asked for. -/
theorem find?_classId {a : Store} {socket c : Nat} {tab : List L3ca} {e : L3ca}
    (htab : ∀ k, tab[k]? = (a.l3 (socket, k)).map (L3ca.mk k))
    (h : tab.find? (fun ca => decide (ca.classId = c)) = some e) :
    a.l3 (socket, c) = some e.u ∧ e.classId = c := by
  have hc : e.classId = c := by simpa using List.find?_some h
  obtain ⟨k, hk⟩ := List.mem_iff_getElem?.1 (List.mem_of_find?_eq_some h)
  obtain ⟨m, hm, rfl⟩ := Option.map_eq_some_iff.1 ((htab k).symm.trans hk)
  obtain rfl : k = c := hc
  exact ⟨hm, rfl⟩

@[simp] theorem L3ca.withMask_classId (ca : L3ca) (scope : UpdateScope) (mask : Word) :
    (ca.withMask scope mask).classId = ca.classId := by
  unfold L3ca.withMask
  split <;> rfl

variable (hkeep : Keeping b view rules Fits) (htakes : Takes view Fits)
include hkeep htakes

theorem setL3CosOn_shows (classId : Nat) (mask : Word) (scope : UpdateScope) (socket : Nat) :
    Shows view (SetsAll (Setting.put rules) (Setting.half rules) [.l3 socket classId scope mask]
      fun _ => True)
      (setL3CosOn b.toBackend classId mask scope socket) := by
  refine Shows.bind_of_reads SetsAll.mayFail (P := fun a (tab : List L3ca) =>
    ∀ k, tab[k]? = (a.l3 (socket, k)).map (L3ca.mk k)) ?_ fun tab s htab => ?_
  · exact shows_failIf_bind Reads.mayFail fun _ => shows_failIf_bind Reads.mayFail fun _ =>
      hkeep.l3caGet socket pqosMaxL3caCos
  · rcases hfind : tab.find? (fun ca => decide (ca.classId = classId)) with _ | ca
    · rw [bind_of_error (ofOption_error.2 ⟨hfind, rfl, rfl⟩)]
      exact SetsAll.mayFail _ _
    · obtain ⟨hm, rfl⟩ := find?_classId htab hfind
      rw [bind_of_ok (ofOption_ok.2 ⟨hfind, rfl⟩), failIf_bind_run]
      split_ifs
      · exact SetsAll.mayFail _ _
      have hfits : Fits (.l3caSet socket [ca.withMask scope mask]) :=
        htakes.l3caSet (s := s) (by rw [L3ca.withMask_classId, hm]; rfl)
      have hset : Shows view
          (SetsAll (Store.putL3 rules.cdpOn socket) (Store.halfL3 rules.cdpOn socket)
          [ca.withMask scope mask] fun _ => True)
          (pqosL3caSet b.toBackend socket [ca.withMask scope mask]) :=
        shows_failIf_bind SetsAll.mayFail fun _ => shows_failIf_bind SetsAll.mayFail fun _ =>
          shows_failIf_bind SetsAll.mayFail fun _ => hkeep.l3caSet socket _ hfits
      refine (hset s).one ?_ fun a' hhalf => ⟨ca.u, hm, hhalf⟩
      simp only [Setting.put, hm]

theorem setL2CosOn_shows (classId : Nat) (mask : Word) (l2id : Nat) :
    Shows view
      (SetsAll (Setting.put rules) (Setting.half rules) [.l2 l2id classId (mask.setWidth 32)]
      fun _ => True) (setL2CosOn b.toBackend classId mask l2id) := by
  have hset : Shows view (SetsAll (Store.putL2 l2id) whole [⟨classId, mask.setWidth 32⟩]
      fun _ => True)
      (setL2CosOn b.toBackend classId mask l2id) :=
    shows_failIf_bind SetsAll.mayFail fun _ => shows_failIf_bind SetsAll.mayFail fun _ =>
      shows_failIf_bind SetsAll.mayFail fun _ => hkeep.l2caSet l2id _ (htakes.other nofun)
  exact hset.mono fun _ _ _ h => h.one rfl fun _ => False.elim

theorem setMbaCosOn_shows (classId : Nat) (availableBw : Word) (socket : Nat) :
    Shows view (SetsAll (Setting.put rules) (Setting.half rules)
      [.mba socket classId (availableBw.setWidth 32).toNat] fun _ => True)
      (setMbaCosOn b.toBackend classId availableBw socket) := by
  have hset : Shows view (SetsAll (Store.putMba rules.rate socket) whole
      [⟨classId, (availableBw.setWidth 32).toNat⟩] fun _ => True)
      (pqosMbaSet b.toBackend socket [⟨classId, (availableBw.setWidth 32).toNat⟩] true) := by
    refine shows_failIf_bind SetsAll.mayFail fun _ => shows_failIf_bind SetsAll.mayFail fun hrate =>
      shows_failIf_bind SetsAll.mayFail fun _ => ?_
    refine (hkeep.mbaSet socket _ true (htakes.other nofun) fun r hr => ?_).mono
      fun _ _ _ h => ⟨fun x hx => ⟨trivial, (h.1 x hx).2⟩, h.2⟩
    exact Nat.not_lt.1 fun hlt => hrate ⟨r, hr, Or.inr hlt⟩
  have hmap : setMbaCosOn b.toBackend classId availableBw socket = (fun _ => ()) <$>
      pqosMbaSet b.toBackend socket [⟨classId, (availableBw.setWidth 32).toNat⟩] true :=
    (map_eq_pure_bind _ _).symm
  rw [hmap]
  exact hset.map.mono fun _ _ _ h =>
    (SetsAll.wraps h fun _ _ => trivial).one rfl fun _ => False.elim

end Turn

/-! ## The loops of a setter -/

section Loop

variable {σ : Type} {view : σ → Store} {rules : StoreRules} {test : Int → Bool}

/-- Whether a step went through, by what it returned. -/
def passed (test : Int → Bool) : Except Halt Int → Except (Option Halt) Unit
  | .ok ret => if test ret then .ok () else .error none
  | .error e => .error (some e)

/-- A step that goes through makes all settings, and all could be read. Another one makes the first
of them. -/
def Does (test : Int → Bool) (rules : StoreRules) (l : List Setting × Bool) (a : Store)
    (r : Except Halt Int) (a' : Store) : Prop :=
  SetsAll (Setting.put rules) (Setting.half rules) l.1 (fun _ : Unit => l.2 = true) a
    (passed test r) a'

/-- Setters and loops over them return a positive number. -/
def positive (ret : Int) : Bool := 0 < ret

/-- The rest return what is not negative. -/
def nonnegative (ret : Int) : Bool := 0 ≤ ret

/-- What is seen of a run. -/
def runView (view : σ → Store) (u : PqosRun σ) : Store := view u.lib

/-- The loop gets all ids done, or it ends on the way. -/
theorem setCosLoop_sets {turn : Nat → EStateM Err σ Unit} {f : Nat → Setting}
    (hturn : ∀ id, Shows view
      (SetsAll (Setting.put rules) (Setting.half rules) [f id] fun _ => True) (turn id)) :
    ∀ (ids : List Nat) (s : σ), (setCosLoop turn ids s).1 ≤ ids.length
      ∧ SetsAll (Setting.put rules) (Setting.half rules) (ids.map f) (fun _ : Unit => True) (view s)
        (if (setCosLoop turn ids s).1 < ids.length then .error () else .ok () : Except Unit Unit)
        (view (setCosLoop turn ids s).2)
  | [], s => ⟨Nat.le_refl 0, fun _ _ => ⟨trivial, rfl⟩, nofun⟩
  | id :: ids, s => by
    rcases hrun : (turn id).run s with ⟨⟨⟩, t⟩ | ⟨e, t⟩
    · obtain ⟨hle, hrest⟩ := setCosLoop_sets hturn ids t
      have hfirst := (hturn id).of_ok hrun
      simp only [setCosLoop, hrun, List.length_cons, Nat.add_lt_add_iff_right,
        Nat.add_le_add_iff_right]
      refine ⟨hle, ?_⟩
      rw [List.map_cons, ← List.singleton_append]
      exact hfirst.append hrest
    · simp only [setCosLoop, hrun, List.length_cons, Nat.zero_le, true_and, Nat.zero_lt_succ,
        if_true]
      exact ((hturn id).of_error hrun).error_append (ids.map f)

theorem setCos_does {turn : Nat → EStateM Err σ Unit} {f : Nat → Setting} {value : Word}
    (hturn : ∀ id, Shows view
      (SetsAll (Setting.put rules) (Setting.half rules) [f id] fun _ => True) (turn id))
    (hvalue : value ≠ 0) (ids : List Nat) :
    Shows (runView view) (Does positive rules (ids.map f, true))
      (cosSetter (setCos turn value ids)) := by
  intro u
  obtain ⟨hle, hsets⟩ := setCosLoop_sets hturn ids u.lib
  change Does positive rules _ _ (.ok (setCos turn value ids u.selAllocMod u.lib).ret)
    (view (setCos turn value ids u.selAllocMod u.lib).lib)
  simp only [setCos, if_neg hvalue]
  split_ifs at hsets ⊢ with hlt
  · exact ⟨nofun, fun _ _ => hsets.2 () rfl⟩
  · obtain ⟨-, hdone⟩ := hsets.1 () rfl
    unfold Does passed
    dsimp only
    split_ifs
    · exact ⟨fun _ _ => ⟨rfl, hdone⟩, nofun⟩
    · exact SetsAll.of_done hdone

theorem setL3CosLoop_eq (b : Backend σ) (classId : Nat) (mask : Word) (scope : UpdateScope)
    (ids : List Nat) (s : σ) : setL3CosLoop b classId mask scope ids s
      = setCosLoop (setL3CosOn b classId mask scope) ids s := by
  induction ids generalizing s with
  | nil => rfl
  | cons socket ids ih =>
    unfold setL3CosLoop setCosLoop
    rcases (setL3CosOn b classId mask scope socket).run s with ⟨⟨⟩, t⟩ | ⟨e, t⟩
    · simp only [ih]
    · rfl

theorem setL3Cos_eq (b : Backend σ) (classId : Nat) (mask : Word) (scope : UpdateScope)
    (ids : List Nat) :
    (fun selAllocMod => setL3Cos b classId mask (some ids) scope selAllocMod)
      = setCos (setL3CosOn b classId mask scope) mask ids := by
  funext selAllocMod s
  simp only [setL3Cos, setCos, setL3CosLoop_eq]

/-- Where nothing was made, nothing need be read. -/
theorem Does.nothing {l : List Setting × Bool} {a : Store} {r : Except Halt Int}
    (hr : ∀ ret, r = .ok ret → test ret = false) : Does test rules l a r a := by
  unfold Does passed
  rcases r with e | ret
  · exact SetsAll.mayFail _ _
  · simp only [hr ret rfl]
    exact SetsAll.mayFail _ _

theorem shows_return_nothing {l : List Setting × Bool} {ret : Int} (hret : test ret = false) :
    Shows (runView view) (Does test rules l) (return ret) :=
  fun _ => Does.nothing fun _ h => Except.ok.inj h ▸ hret

theorem does_mayFail {l : List Setting × Bool} : MayFail (Does test rules l) :=
  fun _ _ => Does.nothing nofun

theorem passed_ok {r : Except Halt Int} :
    passed test r = .ok () ↔ ∃ ret, r = .ok ret ∧ test ret = true := by
  unfold passed
  rcases r with e | ret
  · simp
  · by_cases hret : test ret = true <;> simp [hret]

/-- What a step returned counts only by whether it went through. -/
theorem Does.congr {l : List Setting × Bool} {a a' : Store} {r r' : Except Halt Int}
    (h : Does test rules l a r a') (hr : passed test r = .ok () ↔ passed test r' = .ok ()) :
    Does test rules l a r' a' := by
  unfold Does at h ⊢
  rcases hpass : passed test r with e | ⟨⟩ <;> rcases hpass' : passed test r' with e' | ⟨⟩ <;>
    rw [hpass] at h
  · exact ⟨nofun, fun _ _ => h.2 e rfl⟩
  · rw [hr.2 hpass'] at hpass
    cases hpass
  · rw [hr.1 hpass] at hpass'
    cases hpass'
  · exact ⟨fun _ _ => h.1 () rfl, nofun⟩

section AndThen

variable {l l' : List Setting × Bool} {a a' a'' : Store} {r r' : Except Halt Int}

/-- A step that went through, and then another. -/
theorem Does.andThen_ok {ret : Int} (h : Does test rules l a (.ok ret) a') (hret : test ret = true)
    (h' : Does test rules l' a' r' a'') : Does test rules (andThen l l') a r' a'' := by
  unfold Does at h
  rw [passed_ok.2 ⟨ret, rfl, hret⟩] at h
  have hread : l.2 = true := (h.1 () rfl).1
  unfold andThen
  rw [if_pos hread]
  exact h.append h'

/-- A step that did not go through ends it. -/
theorem Does.andThen_end (h : Does test rules l a r a') (hr : passed test r ≠ .ok ()) :
    Does test rules (andThen l l') a r a' := by
  have hmade : (andThen l l').1 = l.1 ++ if l.2 then l'.1 else [] := by
    unfold andThen
    split_ifs <;> simp
  unfold Does at h ⊢
  rcases hpass : passed test r with e | ⟨⟩
  · rw [hpass] at h
    rw [hmade]
    exact h.error_append _
  · exact absurd hpass hr

end AndThen

/-- A setter that has a value and ids is read, any other sets nothing. -/
theorem setCos_reads {turn : Nat → EStateM Err σ Unit} {f : Nat → Setting}
    (hturn : ∀ id, Shows view
      (SetsAll (Setting.put rules) (Setting.half rules) [f id] fun _ => True) (turn id))
    (value : Word) (ids : List Nat) :
    Shows (runView view)
      (Does positive rules (orNone (if value = 0 ∨ ids.map f = [] then none else some (ids.map f))))
      (cosSetter (setCos turn value ids)) := by
  split_ifs with hnone
  · intro u
    have hret : (setCos turn value ids u.selAllocMod u.lib).ret ≤ 0
        ∧ (setCos turn value ids u.selAllocMod u.lib).lib = u.lib := by
      unfold setCos
      split_ifs with hvalue
      · exact ⟨by simp, rfl⟩
      · obtain rfl : ids = [] := List.map_eq_nil_iff.1 (hnone.resolve_left hvalue)
        exact ⟨by simp [setCosLoop], rfl⟩
    change Does positive rules _ (view u.lib) (.ok (setCos turn value ids u.selAllocMod u.lib).ret)
      (view (setCos turn value ids u.selAllocMod u.lib).lib)
    rw [hret.2]
    exact Does.nothing fun _ h => Except.ok.inj h ▸ decide_eq_false (Int.not_lt.2 hret.1)
  · exact setCos_does hturn (fun h => hnone (Or.inl h)) ids

end Loop

/-! ## A definition -/

section Definition

variable {σ : Type} {b : PidBackend σ} {view : σ → Store} {rules : StoreRules}
  {Fits : AllocCall → Prop}
  (hkeep : Keeping b view rules Fits) (htakes : Takes view Fits) (cpu : CpuInfo)
include hkeep htakes

theorem setAllocationCos_does (type : SelAllocType) (resIds : Option (List Nat)) (str : List Char) :
    Shows (runView view) (Does positive rules (readToken cpu type resIds str))
      (setAllocationCos b.toBackend cpu type resIds str) := by
  unfold setAllocationCos readToken readCos
  rcases strchr '=' str with _ | ⟨cls, text⟩
  · exact shows_return_nothing (by decide)
  refine shows_ofExcept_bind does_mayFail fun x hx => ?_
  obtain ⟨scope, classId⟩ := x
  refine shows_ofExcept_bind does_mayFail fun n hn => ?_
  replace hn : numberOf text = .ok n := hn
  simp only [hx, hn, Except.toOption, Option.bind_eq_bind, Option.bind_some]
  cases type with
  | l3ca =>
    have hset := setCos_reads (setL3CosOn_shows hkeep htakes classId (BitVec.ofNat 64 n) scope)
      (BitVec.ofNat 64 n) (resIds.getD cpu.getSockets)
    rw [← setL3Cos_eq] at hset
    simpa [cosSettings] using hset
  | l2ca =>
    refine shows_failIf_bind does_mayFail fun hscope => ?_
    have hset : Shows _ _ (cosSetter (setL2Cos b.toBackend classId (BitVec.ofNat 64 n)
        (resIds.getD cpu.getL2ids))) :=
      setCos_reads (setL2CosOn_shows hkeep htakes classId (BitVec.ofNat 64 n)) _ _
    simpa [cosSettings, hscope] using hset
  | mba =>
    have hset : Shows _ _ (cosSetter (setMbaCos b.toBackend classId (BitVec.ofNat 64 n)
        (resIds.getD cpu.getSockets))) :=
      setCos_reads (setMbaCosOn_shows hkeep htakes classId (BitVec.ofNat 64 n)) _ _
    simpa [cosSettings] using hset

/-- The classes after one that went through. -/
theorem setAllocationTokens_does (type : SelAllocType) (resIds : Option (List Nat)) :
    ∀ (tokens : List (List Char)) {ret : Int}, 0 < ret →
      Shows (runView view) (Does positive rules (readAll (readToken cpu type resIds) tokens))
        (setAllocationTokens b.toBackend cpu type resIds tokens ret)
  | [], ret, hret => fun _ => by
    unfold setAllocationTokens Does
    rw [EStateM.run_pure, outcome_ok, passed_ok.2 ⟨ret, rfl, decide_eq_true hret⟩]
    exact ⟨fun _ _ => ⟨rfl, rfl⟩, nofun⟩
  | token :: tokens, ret, hret => fun u => by
    have hfirst := setAllocationCos_does hkeep htakes cpu type resIds token
    unfold setAllocationTokens readAll
    rcases hrun : (setAllocationCos b.toBackend cpu type resIds token).run u with ⟨ret', v⟩ | ⟨e, v⟩
    · rw [bind_of_ok hrun]
      split_ifs with hle
      · exact Does.andThen_end (hfirst.of_ok hrun) (by simp [passed, positive, Int.not_lt.2 hle])
      · have hpos := Int.not_le.1 hle
        exact Does.andThen_ok (hfirst.of_ok hrun) (decide_eq_true hpos)
          (setAllocationTokens_does type resIds tokens hpos v)
    · rw [bind_of_error hrun]
      exact Does.andThen_end (hfirst.of_error hrun) (by simp [passed])

theorem setAllocationType_does (resIds : Option (List Nat)) (t : ClassText) :
    Shows (runView view)
      (Does positive rules (match selAllocType t.type with
        | some type => readTokens cpu type resIds (strtok ',' t.cos)
        | none => ([], false))) (setAllocationType b.toBackend cpu resIds t) := by
  unfold setAllocationType
  rcases selAllocType t.type with _ | type
  · exact shows_return_nothing (by decide)
  · dsimp only
    unfold readTokens
    split_ifs with htokens
    · rw [htokens]
      exact shows_return_nothing (by decide)
    · obtain ⟨token, tokens, htokens⟩ := List.exists_cons_of_ne_nil htokens
      -- the loop does not look at what it starts from
      have hstart : setAllocationTokens b.toBackend cpu type resIds (token :: tokens) (-1)
          = setAllocationTokens b.toBackend cpu type resIds (token :: tokens) 1 := rfl
      rw [htokens, hstart]
      exact setAllocationTokens_does hkeep htakes cpu type resIds (token :: tokens) Int.one_pos

/-- A definition makes the settings that it means, or ends on the way through them. -/
theorem setAllocationClass_does (str : List Char) :
    Shows (runView view) (Does positive rules (readClass cpu str))
      (setAllocationClass b.toBackend cpu str) := by
  unfold setAllocationClass readClass
  rcases classText str with _ | t
  · exact shows_return_nothing (by decide)
  dsimp only
  have hresIds := fun resIds => setAllocationType_does hkeep htakes cpu resIds t
  rcases t.resIds with _ | list
  · refine (hresIds none).mono fun _ _ _ h => ?_
    unfold readResIds
    rcases htype : selAllocType t.type with _ | type <;> rw [htype] at h <;> exact h
  refine shows_ofExcept_bind does_mayFail fun ids hids => ?_
  replace hids : listToTab list maxResSz = .ok ids := hids
  simp only [readResIds, hids]
  split_ifs with hnone
  · exact shows_return_nothing (by decide)
  · refine (hresIds (some ids)).mono fun _ _ _ h => ?_
    rcases htype : selAllocType t.type with _ | type <;> rw [htype] at h <;> exact h

end Definition

/-! ## The table -/

section Table

variable {σ : Type}

/-- The loop over the entries of a table, over what they are. -/
def setDefs (set : List Char → BitVec 32 → σ → CosSet σ) : List (List Char) → CosSet σ → CosSet σ
  | [], st => st
  | str :: defs, st =>
    let st := set str st.selAllocMod st.lib
    if st.ret ≤ 0 then st else setDefs set defs st

theorem setAllocFrom_setDefs {set : List Char → BitVec 32 → σ → CosSet σ} {tab : AllocOpts}
    {entries : List Nat} {defs : List (List Char)}
    (h : List.Forall₂ (fun i str => readAllocOpt tab i = some str) entries defs) (st : CosSet σ) :
    setAllocFrom set tab entries st = some (setDefs set defs st) := by
  induction h generalizing st with
  | nil => rfl
  | cons hread _ ih =>
    rw [setAllocFrom, hread, setDefs]
    simp only [Option.bind_eq_bind, Option.bind_some]
    split_ifs
    · rfl
    · exact ih _

theorem readAllocOpt_range (defs : List (List Char)) :
    List.Forall₂ (fun i str => readAllocOpt (holding defs) i = some str)
      (List.range (holding defs).selAllocOptNum) defs := by
  change List.Forall₂ _ (List.range defs.length) defs
  rw [List.forall₂_iff_get]
  refine ⟨List.length_range, fun i hi hi' => ?_⟩
  have hentry : (holding defs).allocOpts[i]? = some (some (defs.get ⟨i, hi'⟩)) := by
    rw [holding, List.getElem?_append_left (by rwa [List.length_map]), List.getElem?_map,
      List.getElem?_eq_getElem hi']
    rfl
  rw [List.get_eq_getElem, List.getElem_range, readAllocOpt, hentry]
  rfl

theorem setAlloc_setDefs {set : List Char → BitVec 32 → σ → CosSet σ} {defs : List (List Char)}
    (hne : defs ≠ []) (selAllocMod : BitVec 32) (s : σ) :
    setAlloc set (holding defs) selAllocMod s = some
      { setDefs set defs ⟨1, selAllocMod, s⟩ with
        ret := if (setDefs set defs ⟨1, selAllocMod, s⟩).ret ≤ 0 then -1
          else (setDefs set defs ⟨1, selAllocMod, s⟩).selAllocMod.toInt } := by
  -- the loop does not look at what it starts from
  have hstart : setDefs set defs ⟨-1, selAllocMod, s⟩ = setDefs set defs ⟨1, selAllocMod, s⟩ := by
    obtain ⟨str, defs, rfl⟩ := List.exists_cons_of_ne_nil hne
    rfl
  have hread : ∀ i ∈ List.range (holding defs).selAllocOptNum,
      (readAllocOpt (holding defs) i).isSome := fun i hi => by
    obtain ⟨str, -, hstr⟩ := readAllocOpt_holding (List.mem_range.1 hi)
    rw [hstr]
    rfl
  obtain ⟨freed, hfreed⟩ := Option.isSome_iff_exists.1 (option_mapM_isSome hread)
  have hnum : (holding defs).selAllocOptNum ≠ 0 := by simpa [holding] using hne
  unfold setAlloc
  rw [if_neg hnum, hfreed, setAllocFrom_setDefs (readAllocOpt_range defs), hstart]
  rfl

/-- What a step ended with. -/
def CosSet.outcome (st : CosSet (Tool σ)) : Except Halt Int :=
  match st.lib.halted with
  | some e => .error e
  | none => .ok st.ret

theorem haltable_outcome (x : EStateM Halt (PqosRun σ) Int) (selAllocMod : BitVec 32) (s : Tool σ) :
    (haltable x selAllocMod s).outcome = Prog.outcome (x.run ⟨s.lib, selAllocMod⟩)
      ∧ (haltable x selAllocMod s).lib.lib = (final (x.run ⟨s.lib, selAllocMod⟩)).lib := by
  unfold haltable CosSet.outcome
  rcases x.run ⟨s.lib, selAllocMod⟩ with ⟨ret, t⟩ | ⟨e, t⟩ <;> exact ⟨rfl, rfl⟩

theorem haltable_ok {x : EStateM Halt (PqosRun σ) Int} {selAllocMod : BitVec 32} {s : Tool σ}
    (h : ¬ (haltable x selAllocMod s).ret ≤ 0) : (haltable x selAllocMod s).lib.halted = none := by
  unfold haltable at h ⊢
  rcases hrun : x.run ⟨s.lib, selAllocMod⟩ with ⟨ret, t⟩ | ⟨e, t⟩
  · rfl
  · rw [hrun] at h
    exact absurd (show (-1 : Int) ≤ 0 by decide) h

variable {b : PidBackend σ} {view : σ → Store} {rules : StoreRules} {Fits : AllocCall → Prop}
  (hkeep : Keeping b view rules Fits) (htakes : Takes view Fits) (cpu : CpuInfo)
include hkeep htakes

theorem setDefs_does (defs : List (List Char)) (st : CosSet (Tool σ)) (hret : 0 < st.ret)
    (hgoing : st.lib.halted = none) :
    Does positive rules (readAll (readClass cpu) defs) (view st.lib.lib)
      (setDefs (fun str => haltable (setAllocationClass b.toBackend cpu str)) defs st).outcome
      (view (setDefs (fun str => haltable (setAllocationClass b.toBackend cpu str)) defs
        st).lib.lib) := by
  induction defs generalizing st with
  | nil =>
    unfold setDefs CosSet.outcome Does
    rw [hgoing, passed_ok.2 ⟨_, rfl, decide_eq_true hret⟩]
    exact ⟨fun _ _ => ⟨rfl, rfl⟩, nofun⟩
  | cons str defs ih =>
    have hfirst := setAllocationClass_does hkeep htakes cpu str ⟨st.lib.lib, st.selAllocMod⟩
    obtain ⟨houtcome, hlib⟩ :=
      haltable_outcome (setAllocationClass b.toBackend cpu str) st.selAllocMod st.lib
    unfold runView at hfirst
    rw [← houtcome, ← hlib] at hfirst
    unfold setDefs readAll
    dsimp only
    split_ifs with hle
    · refine hfirst.andThen_end fun hpass => ?_
      obtain ⟨ret, hok, hlt⟩ := passed_ok.1 hpass
      unfold CosSet.outcome at hok
      split at hok
      · cases hok
      · exact absurd (of_decide_eq_true hlt) (Int.not_lt.2 (Except.ok.inj hok ▸ hle))
    · have hgoing := haltable_ok hle
      have hok : (haltable (setAllocationClass b.toBackend cpu str) st.selAllocMod st.lib).outcome
          = .ok (haltable (setAllocationClass b.toBackend cpu str) st.selAllocMod st.lib).ret := by
        rw [CosSet.outcome, hgoing]
      rw [hok] at hfirst
      exact hfirst.andThen_ok (decide_eq_true (Int.not_le.1 hle)) (ih _ (Int.not_le.1 hle) hgoing)

end Table

/-! ## A run -/

/-- The settings of associations. -/
def assocSettings (sel : SelAssocs) : List Setting :=
  (sel.selAssocTab.map fun a => .core a.id a.classId)
    ++ sel.selAssocPidTab.map fun a => .task a.id.toNat a.classId

section Run

variable {σ : Type} {b : PidBackend σ} {view : σ → Store} {rules : StoreRules}
  {Fits : AllocCall → Prop}
  (hkeep : Keeping b view rules Fits) (htakes : Takes view Fits) (p : Platform)
include hkeep htakes

theorem setAllocOpts_does (defs : List (List Char)) :
    Shows (runView view) (Does nonnegative rules (readAll (readClass p.cpu) defs))
      (setAllocOpts p b (holding defs)) := by
  intro u
  by_cases hne : defs = []
  · subst hne
    exact ⟨fun _ _ => ⟨rfl, rfl⟩, nofun⟩
  have hdefs :=
    setDefs_does hkeep htakes p.cpu defs ⟨1, u.selAllocMod, ⟨u.lib, none⟩⟩ Int.one_pos rfl
  unfold setAllocOpts Does
  simp only [EStateM.run, setAlloc_setDefs hne]
  generalize setDefs _ defs _ = st at hdefs ⊢
  unfold Does CosSet.outcome at hdefs
  rcases hgoing : st.lib.halted with _ | e <;> rw [hgoing] at hdefs
  · unfold passed positive at hdefs
    by_cases hle : st.ret ≤ 0
    · simp only [Int.not_lt.2 hle, decide_false, Bool.false_eq_true, if_false] at hdefs
      rw [if_pos hle]
      exact ⟨nofun, fun _ _ => hdefs.2 none rfl⟩
    · simp only [Int.not_le.1 hle, decide_true, if_true] at hdefs
      obtain ⟨hread, hdone⟩ := hdefs.1 () rfl
      simp only [if_neg hle, outcome_ok, final_ok]
      unfold passed
      dsimp only
      split_ifs
      · exact ⟨fun _ _ => ⟨hread, hdone⟩, nofun⟩
      · exact SetsAll.of_done hdone
  · exact ⟨nofun, fun _ _ => hdefs.2 (some e) rfl⟩

omit p in
theorem setAssocs_shows (sel : SelAssocs) :
    Shows view (SetsAll (Setting.put rules) (Setting.half rules) (assocSettings sel) fun _ => True)
      (setAssocs b sel) := by
  refine Shows.bind_setsAll (Shows.forM_map fun a _ => ?_) fun _ => Shows.forM_map fun a _ => ?_
  · have hset : Shows view (Sets (Setting.put rules (.core a.id a.classId)))
        (pqosAllocAssocSet b.toBackend a.id a.classId) :=
      shows_failIf_bind Sets.mayFail fun _ => hkeep.assocSet _ _ (htakes.other nofun)
    exact hset.mono fun _ _ _ h => h.all fun _ => trivial
  · unfold setTaskAssoc
    rcases hid : a.id with t | t
    · have hset : Shows view (Sets (Setting.put rules (.task t a.classId)))
          (pqosAllocAssocSetPid b t a.classId) :=
        shows_failIf_bind Sets.mayFail fun _ => shows_failIf_bind Sets.mayFail fun _ =>
          hkeep.assocSetPid _ _ (htakes.other nofun)
      exact hset.mono fun _ _ _ h => h.all fun _ => trivial
    · exact shows_throw SetsAll.mayFail _

omit p in
theorem setAllocationAssoc_does (sel : SelAssocs) :
    Shows (runView view) (Does nonnegative rules (assocSettings sel, true))
      (setAllocationAssoc b sel) := by
  intro u
  have hset := setAssocs_shows hkeep htakes sel
  rcases hrun : (setAssocs b sel).run u.lib with ⟨⟨⟩, t⟩ | ⟨e, t⟩
  · have hdone := ((hset.of_ok hrun).1 _ rfl).2
    simp only [setAllocationAssoc, EStateM.run] at hrun ⊢
    rw [hrun]
    exact ⟨fun _ _ => ⟨rfl, hdone⟩, fun e he => by simp [passed, nonnegative] at he⟩
  · have hpart := (hset.of_error hrun).2 e rfl
    simp only [setAllocationAssoc, EStateM.run] at hrun ⊢
    rw [hrun]
    exact ⟨nofun, fun _ _ => hpart⟩

/-- What the options mean: the definitions, and then the associations. -/
def runSettings (cpu : CpuInfo) (defs : List (List Char)) (sel : SelAssocs) : List Setting × Bool :=
  andThen (readAll (readClass cpu) defs) (assocSettings sel, true)

theorem allocApply_does (defs : List (List Char)) (sel : SelAssocs) :
    Shows (runView view) (Does nonnegative rules (runSettings p.cpu defs sel))
      (allocApply p b (holding defs) sel) := by
  intro u
  unfold allocApply
  split_ifs with hcap hsel
  · have hdefs := setAllocOpts_does hkeep htakes p defs
    have hassoc := setAllocationAssoc_does hkeep htakes sel
    rcases hrun : (setAllocOpts p b (holding defs)).run u with ⟨ret, v⟩ | ⟨e, v⟩
    · rw [bind_of_ok hrun]
      split_ifs with hneg
      · refine ((hdefs.of_ok hrun).andThen_end ?_).congr ?_ <;>
          simp [passed, nonnegative, Int.not_le.2 hneg, Prog.outcome]
      · refine (hdefs.of_ok hrun).andThen_ok (decide_eq_true (Int.not_lt.1 hneg)) ?_
        rcases hrun' : (setAllocationAssoc b sel).run v with ⟨ret', w⟩ | ⟨e, w⟩
        · rw [bind_of_ok hrun']
          split_ifs with hneg' hsome
          · exact (hassoc.of_ok hrun').congr
              (by simp [passed, nonnegative, Int.not_le.2 hneg', Prog.outcome])
          · exact (hassoc.of_ok hrun').congr
              (by simp [passed, nonnegative, Int.not_lt.1 hneg', Prog.outcome])
          · exact (hassoc.of_ok hrun').congr
              (by simp [passed, nonnegative, Int.not_lt.1 hneg', Prog.outcome])
        · rw [bind_of_error hrun']
          exact hassoc.of_error hrun'
    · rw [bind_of_error hrun]
      exact Does.andThen_end (hdefs.of_error hrun) (by simp [passed])
  · exact shows_return_nothing (by decide) u
  · simp only [not_or, not_not, Nat.not_lt, Nat.le_zero] at hsel
    obtain ⟨hcores, hnum, htasks⟩ := hsel
    obtain rfl : defs = [] := List.length_eq_zero_iff.1 hnum
    have hnone : runSettings p.cpu [] sel = ([], true) := by
      simp [runSettings, readAll, andThen, assocSettings, hcores, htasks]
    rw [hnone]
    exact ⟨fun _ _ => ⟨rfl, rfl⟩, nofun⟩

/-- Options that can be read. Where the definitions' table overruns, nothing is made. -/
theorem pqosAlloc_reads (classArgs : List (List Char)) {assocArgs : List (List Char)}
    {sel : SelAssocs} (hsel : associations assocArgs = .ok sel) :
    Shows (runView view) (Does nonnegative rules (runSettings p.cpu (allocDefs classArgs) sel))
      (pqosAlloc p b classArgs assocArgs) := by
  refine shows_ofExcept_bind does_mayFail fun tab htab =>
    shows_ofExcept_bind does_mayFail fun sel' hsel' => ?_
  obtain rfl : sel' = sel := Except.ok.inj (hsel'.symm.trans hsel)
  replace htab : allocClasses classArgs = .ok tab := htab
  rw [allocClasses_eq] at htab
  split_ifs at htab
  obtain rfl := Except.ok.inj htab
  exact allocApply_does hkeep htakes p (allocDefs classArgs) sel'

omit hkeep htakes p in
/-- What the arguments of options `-e` and `-a` mean together. -/
def asked (cpu : CpuInfo) (classArgs assocArgs : List (List Char)) : List Setting × Bool :=
  match associations assocArgs with
  | .ok sel => runSettings cpu (allocDefs classArgs) sel
  | .error _ => ([], false)

/-- A run of pqos that does not fail has made every setting that its options mean, in order, and all
of them could be read. One that fails, at any point and for any reason, has made the first of them,
and of the next one at most a half. -/
theorem pqosAlloc_does (classArgs assocArgs : List (List Char)) :
    Shows (runView view) (Does nonnegative rules (asked p.cpu classArgs assocArgs))
      (pqosAlloc p b classArgs assocArgs) := by
  unfold asked
  rcases hsel : associations assocArgs with e | sel
  · refine shows_ofExcept_bind does_mayFail fun _ _ =>
      shows_ofExcept_bind does_mayFail fun sel hok => ?_
    cases hsel.symm.trans hok
  · exact pqosAlloc_reads hkeep htakes p classArgs hsel

end Run

theorem msr_takes {p : Platform} : Takes (msrView p) (MsrFits p) where
  l3caSet {s socket e} h := by
    obtain ⟨m, hm⟩ := Option.isSome_iff_exists.1 h
    obtain ⟨n, -, hn, -, hlt, -⟩ := heldBy_eq_some hm
    obtain ⟨c, hc, rfl⟩ := l3caGetCosNum_ok.1 hn
    exact msrFits_l3caSet hc (by simpa using hlt) socket
  other {call} h := by
    cases call with
    | l3caSet socket ca => exact absurd rfl (h socket ca)
    | _ => trivial

/-- The second mask of class 2 is refused, so no core is moved. -/
theorem pqosAlloc_does_refused :
    ∃ t, (pqosAlloc refusingPlatform (hwPidBackend refusingPlatform) ["llc:1=0x3,2=0xc".toList]
        ["llc:1=0".toList]).run ⟨⟨fun _ => 0, []⟩, 0⟩ = .ok (-1) t
      ∧ Does nonnegative (msrRules refusingPlatform)
          ([.l3 0 1 .both 3, .l3 0 2 .both 12, .core 0 1], true)
          (msrView refusingPlatform ⟨fun _ => 0, []⟩) (.ok (-1))
          (runView (msrView refusingPlatform) t) := by
  have hfit : refusingPlatform.FitsBanks :=
    ⟨cdpPlatform_fitsBanks.l3, cdpPlatform_fitsBanks.l2, cdpPlatform_fitsBanks.mba⟩
  have hasked : asked refusingPlatform.cpu ["llc:1=0x3,2=0xc".toList] ["llc:1=0".toList]
      = ([.l3 0 1 .both 3, .l3 0 2 .both 12, .core 0 1], true) := by decide +kernel
  have hrun := eq_ok_of_outcome (by decide +kernel : outcome ((pqosAlloc refusingPlatform
    (hwPidBackend refusingPlatform) ["llc:1=0x3,2=0xc".toList] ["llc:1=0".toList]).run
      ⟨⟨fun _ => 0, []⟩, 0⟩) = .ok (-1))
  have hdoes := (pqosAlloc_does (hwPidBackend_keeping hfit) msr_takes refusingPlatform
    ["llc:1=0x3,2=0xc".toList] ["llc:1=0".toList]).of_ok hrun
  rw [hasked] at hdoes
  exact ⟨_, hrun, hdoes⟩

end Pqos
