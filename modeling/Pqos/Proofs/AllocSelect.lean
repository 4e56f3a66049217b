import Pqos.AllocSelect
import Pqos.Proofs.MinWidth
import Pqos.Proofs.NumberList
import Pqos.Proofs.SchemataFrame

/-!
# Setting part of a class

On a socket the setter writes back what it read, with the mask in place of the parts in the scope.
Under CDP these are two writes, so the loop can end between them, and then the data mask on the
socket it ended at is set already. But for that, a prefix of the sockets is set and nothing else
changes.
-/

namespace Pqos

open CText Prog

/-! ## The class and the scope -/

theorem getLast?_ne_scope {t : List Char} {n : Nat} (h : Digits 10 t n) :
    ∀ c ∈ ['c', 'C', 'd', 'D'], t.getLast? ≠ some c := by
  intro c hc hlast
  have hdigit := h.digit c (List.mem_of_getLast? hlast)
  simp only [List.mem_cons, List.not_mem_nil, or_false] at hc
  rcases hc with rfl | rfl | rfl | rfl <;>
  · revert hdigit
    decide

/-- A class in decimal stands for both its masks, with the letter behind it for one of them. -/
theorem parseCosMaskType_decimal {t : List Char} {n : Nat} (h : Digits 10 t n) (hn : n < 2 ^ 32) :
    parseCosMaskType t = .ok (.both, n)
      ∧ (∀ c ∈ ['c', 'C'], parseCosMaskType (t ++ [c]) = .ok (.code, n))
      ∧ ∀ c ∈ ['d', 'D'], parseCosMaskType (t ++ [c]) = .ok (.data, n) := by
  have hread (scope : UpdateScope) : (do
      let id ← Main.strtouint64 t
      return (scope, id % 2 ^ 32) : Except Halt (UpdateScope × Nat)) = .ok (scope, n) := by
    rw [show Main.strtouint64 t = .ok n from numberOf_decimal h (by omega)]
    exact congrArg (fun k => Except.ok (scope, k)) (Nat.mod_eq_of_lt hn)
  have hlen (c : Char) : 1 < (t ++ [c]).length := by
    have := List.length_pos_of_ne_nil h.ne_nil
    rw [List.length_append, List.length_singleton]
    omega
  have hlast := getLast?_ne_scope h
  unfold parseCosMaskType
  refine ⟨?_, fun c hc => ?_, fun c hc => ?_⟩
  · rw [if_neg (by simp_all), if_neg (by simp_all)]
    exact hread .both
  · rw [List.dropLast_concat, List.getLast?_concat, if_pos ⟨hlen c, by simpa using hc⟩]
    exact hread .code
  · have hne : ¬ (some c = some 'c' ∨ some c = some 'C') := by
      rcases List.mem_pair.1 hc with rfl | rfl <;> decide
    rw [List.dropLast_concat, List.getLast?_concat, if_neg fun hcode => hne hcode.2,
      if_pos ⟨hlen c, by simpa using hc⟩]
    exact hread .data

/-! ## What is to be set -/

/-- The registers of a class on a socket that the scope selects. Without CDP there is one. -/
def Chosen (cdpOn : Bool) (scope : UpdateScope) (classId socket : Nat) (l : Loc) : Prop :=
  (scope ≠ .code ∧ l = .socket socket (l3caReg cdpOn classId))
    ∨ (cdpOn = true ∧ scope ≠ .data ∧ l = .socket socket ((l3caReg true classId + 1) % 2 ^ 32))

/-- Between the states exactly the registers in `R` were set to the mask. -/
def SetTo (mask : Word) (R : Loc → Prop) (s t : Msr) : Prop :=
  ∀ l, (R l → t.mem l = mask) ∧ (¬ R l → t.mem l = s.mem l)

/-- The selected part of the class on each of the sockets, and nothing else. -/
def OnSockets (cdpOn : Bool) (scope : UpdateScope) (classId : Nat) (sockets : List Nat) (l : Loc) :
    Prop :=
  ∃ socket ∈ sockets, Chosen cdpOn scope classId socket l

section SetTo

variable {mask : Word} {R R' : Loc → Prop} {s t u : Msr}

theorem SetTo.of_mem (h : t.mem = s.mem) (hR : ∀ l, ¬ R l) : SetTo mask R s t :=
  fun l => ⟨fun hl => absurd hl (hR l), fun _ => by rw [h]⟩

theorem SetTo.trans (h : SetTo mask R s t) (h' : SetTo mask R' t u) :
    SetTo mask (fun l => R l ∨ R' l) s u := by
  intro l
  refine ⟨fun hl => ?_, fun hl => ?_⟩
  · by_cases hR' : R' l
    · exact (h' l).1 hR'
    · rw [(h' l).2 hR']
      exact (h l).1 (hl.resolve_right hR')
  · rw [(h' l).2 fun hR' => hl (Or.inr hR'), (h l).2 fun hR => hl (Or.inl hR)]

theorem SetTo.congr (h : SetTo mask R s t) (hR : ∀ l, R l ↔ R' l) : SetTo mask R' s t := by
  rwa [← funext fun l => propext (hR l)]

theorem SetTo.of_mem_left (h : SetTo mask R s t) (hs : s.mem = u.mem) : SetTo mask R u t := by
  intro l
  rw [← hs]
  exact h l

/-- A write of what was there already sets nothing. -/
theorem SetTo.of_update {P : Prop} [Decidable P] {l : Loc}
    (h : t.mem = Function.update s.mem l (if P then s.mem l else mask)) :
    SetTo mask (fun l' => ¬ P ∧ l' = l) s t := by
  intro l'
  rw [h]
  refine ⟨?_, fun hl' => ?_⟩
  · rintro ⟨hP, rfl⟩
    rw [Function.update_self, if_neg hP]
  · by_cases hl : l' = l
    · subst hl
      have hP : P := by_contra fun hP => hl' ⟨hP, rfl⟩
      rw [Function.update_self, if_pos hP]
    · exact Function.update_of_ne hl _ _

end SetTo

/-! ## One socket -/

section Socket

variable {p : Platform} {classId socket core : Nat} {mask : Word} {scope : UpdateScope}
  {s t u : Msr} {e : Err} {c : CapL3ca}

/-- Between the states the data mask on the socket was set, and then the write of the code mask,
which was the last access, failed. -/
structure Torn (p : Platform) (mask : Word) (scope : UpdateScope) (classId socket : Nat)
    (R : Loc → Prop) (s t : Msr) : Prop where
  cdpOn : p.cdpOn = true
  data : scope ≠ .code
  failed : ∃ core v h, p.cpu.getOneCore socket = .ok core
    ∧ t.trace = .wr core ((l3caReg true classId + 1) % 2 ^ 32) v :: h
    ∧ p.fails h (.wr core ((l3caReg true classId + 1) % 2 ^ 32) v) = true
  set : SetTo mask (fun l => R l ∨ l = .socket socket (l3caReg true classId)) s t

theorem msrAccess_fails {a : Access} (h : (msrAccess p a).run s = .error e t)
    (ha : a.lcore < p.cpu.maxcores) : t.trace = a :: s.trace ∧ p.fails s.trace a = true := by
  unfold msrAccess at h
  simp only [bind_error, failIf_error, failIf_ok] at h
  rcases h with ⟨hle, -⟩ | ⟨_, _, ⟨-, rfl⟩, h | ⟨s', _, hs, h | ⟨_, _, ht, hf, -, rfl⟩⟩⟩
  · exact absurd ha (Nat.not_lt_of_le hle)
  · cases h
  · cases h
  · cases hs
    cases ht
    exact ⟨rfl, hf⟩

theorem msrWrite_fails {reg : Nat} {v : Word} (h : (msrWrite p core reg v).run s = .error e t)
    (hcore : core < p.cpu.maxcores) :
    t.trace = .wr core reg v :: s.trace ∧ p.fails s.trace (.wr core reg v) = true := by
  unfold msrWrite at h
  rcases bind_error.1 h with h | ⟨_, _, -, h⟩
  · exact msrAccess_fails h hcore
  · cases h

/-- The masks of a class that a table of classes holds are on its socket. -/
theorem loc_l3caReg (hcore : p.cpu.getOneCore socket = .ok core) (hk : classId < 16)
    (cdpOn : Bool) : p.cpu.loc core (l3caReg cdpOn classId)
      = .socket socket (l3caReg cdpOn classId) := by
  obtain ⟨a, ha, rfl, rfl⟩ := CpuInfo.getOneCore_ok hcore
  refine CpuInfo.loc_socket ha (Or.inl ?_)
  cases cdpOn <;> simp only [l3caReg, msrL3caMaskStart, msrL3caMaskEnd] <;> grind

theorem loc_l3caReg_code (hcore : p.cpu.getOneCore socket = .ok core) (hk : classId < 16) :
    p.cpu.loc core ((l3caReg true classId + 1) % 2 ^ 32)
      = .socket socket ((l3caReg true classId + 1) % 2 ^ 32) := by
  obtain ⟨a, ha, rfl, rfl⟩ := CpuInfo.getOneCore_ok hcore
  refine CpuInfo.loc_socket ha (Or.inl ?_)
  simp only [l3caReg, msrL3caMaskStart, msrL3caMaskEnd]
  grind

/-- A class of the table is the view of its registers. -/
theorem find?_l3View {cdpOn : Bool} {n : Nat} {ca : L3ca}
    (h : ((List.range n).map (l3View p cdpOn core s)).find? (fun ca => ca.classId = classId)
      = some ca) : classId < n ∧ ca = l3View p cdpOn core s classId := by
  have hid := List.find?_some h
  obtain ⟨k, hk, rfl⟩ := List.mem_map.1 (List.mem_of_find?_eq_some h)
  obtain rfl : k = classId := of_decide_eq_true hid
  exact ⟨List.mem_range.1 hk, rfl⟩

theorem pqosL3caSet_guards (ca : L3ca) (hcap : p.capGetType CapItem.l3ca? = .ok c)
    (hcore : p.cpu.getOneCore socket = .ok core) (hn : 0 < c.numClasses) :
    Guards (pqosL3caSet (hwBackend p) socket [ca]) (l3caWrite p c.cdpOn core ca) := by
  refine guards_failIf_bind fun _ => guards_failIf_bind fun _ => guards_failIf_bind fun _ s =>
    Or.inr ?_
  have hready : L3Ready p socket [ca] c core := ⟨hcap, hn, hcore⟩
  exact (hready.run s).trans (by rw [forM_one])

/-- The masks a socket shows for a class are written back with those in the scope replaced, or the
turn fails before it writes. -/
theorem setL3CosOn_cases (p : Platform) (classId : Nat) (mask : Word) (scope : UpdateScope)
    (socket : Nat) (s : Msr) :
    (∃ e t, (setL3CosOn (hwBackend p) classId mask scope socket).run s = .error e t
        ∧ ∀ W, Confined p W s t)
      ∨ ∃ c core u, p.capGetType CapItem.l3ca? = .ok c ∧ p.cpu.getOneCore socket = .ok core
        ∧ classId < 16 ∧ (c.cdpOn = true ∨ scope = .both) ∧ u.mem = s.mem
        ∧ (setL3CosOn (hwBackend p) classId mask scope socket).run s
          = (l3caWrite p c.cdpOn core
              ((l3View p c.cdpOn core s classId).withMask scope mask)).run u := by
  have hconf (W) : Keeps (Confined p W) (pqosL3caGet (hwBackend p) socket pqosMaxL3caCos) :=
    keeps_failIf_bind Confined.isFrame fun _ => keeps_failIf_bind Confined.isFrame fun _ =>
      hwL3caGet_confined W socket
  unfold setL3CosOn
  rcases hr : (pqosL3caGet (hwBackend p) socket pqosMaxL3caCos).run s with ⟨tab, u⟩ | ⟨e, u⟩
  · have hu (W) : Confined p W s u := (hconf W).of_ok hr
    rw [bind_of_ok hr]
    unfold pqosL3caGet checkInit at hr
    simp only [bind_ok, failIf_ok] at hr
    obtain ⟨_, s₁, ⟨-, h₁⟩, _, s₂, ⟨-, h₂⟩, hget⟩ := hr
    rw [h₂, h₁] at hget
    obtain ⟨c, core, hc, hcore, rfl⟩ := hwL3caGet_ok hget
    have h16 : c.numClasses ≤ 16 := hwL3caGet_fits hc hget
    rcases hfind : ((List.range c.numClasses).map (l3View p c.cdpOn core s)).find?
      (fun ca => ca.classId = classId) with _ | ca
    · exact Or.inl ⟨_, u, bind_of_error (ofOption_error.2 ⟨hfind, rfl, rfl⟩), hu⟩
    obtain ⟨hlt, rfl⟩ := find?_l3View hfind
    rw [bind_of_ok (ofOption_ok.2 ⟨hfind, rfl⟩), failIf_bind_run]
    have hcdp : (l3View p c.cdpOn core s classId).cdp = c.cdpOn := by
      cases hon : c.cdpOn <;> rfl
    rw [hcdp]
    split_ifs with hoff
    · exact Or.inl ⟨_, u, rfl, hu⟩
    · rcases pqosL3caSet_guards ((l3View p c.cdpOn core s classId).withMask scope mask) hc hcore
        (Nat.zero_lt_of_lt hlt) u with ⟨e, hrun⟩ | hrun
      · exact Or.inl ⟨e, u, hrun, hu⟩
      · refine Or.inr ⟨c, core, u, hc, hcore, by omega, ?_, Confined.mem hu, hrun⟩
        cases hon : c.cdpOn <;> simp_all
  · exact Or.inl ⟨e, u, bind_of_error hr, fun W => (hconf W).of_error hr⟩

theorem msrWrite_setTo {P : Prop} [Decidable P] {reg : Nat}
    (h : (msrWrite p core reg (if P then s.mem (p.cpu.loc core reg) else mask)).run s = .ok () t) :
    SetTo mask (fun l => ¬ P ∧ l = p.cpu.loc core reg) s t :=
  SetTo.of_update (by rw [msrWrite_ok h]; rfl)

/-- Without CDP there is one write. -/
theorem setL3_noCdp (hcore : p.cpu.getOneCore socket = .ok core) (hk : classId < 16)
    (hscope : scope = .both) {r : EStateM.Result Err Msr Unit}
    (hr : (l3caWrite p false core ((l3View p false core s classId).withMask scope mask)).run t = r)
    (ht : t.mem = s.mem) :
    (∀ u, r = .ok () u → SetTo mask (Chosen false scope classId socket) s u)
      ∧ ∀ e u, r = .error e u → u.mem = s.mem := by
  replace hr : (msrWrite p core (l3caReg false classId) mask).run t = r := hr
  refine ⟨fun u hu => ?_, fun e u hu => ?_⟩
  · have hset : SetTo mask _ t u := msrWrite_setTo (P := False) (hr.trans hu)
    rw [loc_l3caReg hcore hk] at hset
    refine (hset.of_mem_left ht).congr fun l => ?_
    simp [Chosen, hscope]
  · exact (msrWrite_error (hr.trans hu)).trans ht

/-- A code mask that cannot be written leaves the data mask before it set, if it is in the scope. -/
theorem torn_of_fails {v : Word} (hon : p.cdpOn = true)
    (hcore : p.cpu.getOneCore socket = .ok core)
    (hset : SetTo mask (fun l => ¬ scope = .code ∧ l = .socket socket (l3caReg true classId)) s t)
    (h : (msrWrite p core ((l3caReg true classId + 1) % 2 ^ 32) v).run t = .error e u) :
    u.mem = s.mem ∨ Torn p mask scope classId socket (fun _ => False) s u := by
  have hmem := msrWrite_error h
  by_cases hscope : scope = .code
  · exact Or.inl (hmem.trans (funext fun l => (hset l).2 fun hl => hl.1 hscope))
  · have hlt : core < p.cpu.maxcores := by
      obtain ⟨a, ha, rfl, -⟩ := CpuInfo.getOneCore_ok hcore
      exact CpuInfo.lt_maxcores (List.mem_map_of_mem ha)
    obtain ⟨htrace, hfails⟩ := msrWrite_fails h hlt
    refine Or.inr ⟨hon, hscope, ⟨core, _, _, hcore, htrace, hfails⟩, fun l => ?_⟩
    rw [hmem]
    exact ⟨fun hl => (hset l).1 ⟨hscope, hl.resolve_left id⟩,
      fun hl => (hset l).2 fun h' => hl (Or.inr h'.2)⟩

/-- Under CDP the data mask is written first, then the code mask. The one that is not in the scope
is written as it was read. -/
theorem setL3_cdp (hon : p.cdpOn = true) (hcore : p.cpu.getOneCore socket = .ok core)
    (hk : classId < 16) {r : EStateM.Result Err Msr Unit}
    (hr : (l3caWrite p true core ((l3View p true core s classId).withMask scope mask)).run t = r)
    (ht : t.mem = s.mem) :
    (∀ u, r = .ok () u → SetTo mask (Chosen true scope classId socket) s u)
      ∧ ∀ e u, r = .error e u →
        u.mem = s.mem ∨ Torn p mask scope classId socket (fun _ => False) s u := by
  have hdata := loc_l3caReg (p := p) hcore hk true
  have hcode := loc_l3caReg_code (p := p) hcore hk
  have hne : p.cpu.loc core ((l3caReg true classId + 1) % 2 ^ 32)
      ≠ p.cpu.loc core (l3caReg true classId) := by
    intro h
    have := CpuInfo.loc_inj h
    simp only [l3caReg, msrL3caMaskStart, if_true] at this
    omega
  replace hr : (do
      msrWrite p core (l3caReg true classId)
        (if scope = UpdateScope.code then s.mem (p.cpu.loc core (l3caReg true classId)) else mask)
      msrWrite p core ((l3caReg true classId + 1) % 2 ^ 32) (if scope = UpdateScope.data
        then s.mem (p.cpu.loc core ((l3caReg true classId + 1) % 2 ^ 32)) else mask)).run t = r :=
          hr
  rw [← ht] at hr
  rcases hfirst : (msrWrite p core (l3caReg true classId)
      (if scope = .code then t.mem (p.cpu.loc core (l3caReg true classId)) else mask)).run t
    with ⟨_, v⟩ | ⟨e, v⟩
  · have hset := (msrWrite_setTo hfirst).of_mem_left ht
    have hkept : v.mem (p.cpu.loc core ((l3caReg true classId + 1) % 2 ^ 32))
        = t.mem (p.cpu.loc core ((l3caReg true classId + 1) % 2 ^ 32)) := by
      rw [ht]
      exact (hset _).2 fun h => hne h.2
    rw [bind_of_ok hfirst, ← hkept] at hr
    refine ⟨fun u hu => ?_, fun e u hu => ?_⟩
    · refine (hset.trans (msrWrite_setTo (hr.trans hu))).congr fun l => ?_
      rw [hdata, hcode]
      simp [Chosen]
    · rw [hdata] at hset
      exact torn_of_fails hon hcore hset (hr.trans hu)
  · rw [bind_of_error hfirst] at hr
    subst hr
    refine ⟨fun u hu => ?_, fun e' u hu => ?_⟩
    · cases hu
    · cases hu
      exact Or.inl ((msrWrite_error hfirst).trans ht)

/-- A turn sets the selected part of the class on its socket. One that fails sets nothing, but for
the half that is done already. -/
theorem setL3CosOn_step (p : Platform) (classId : Nat) (mask : Word) (scope : UpdateScope)
    (socket : Nat) (s : Msr) :
    (∀ u, (setL3CosOn (hwBackend p) classId mask scope socket).run s = .ok () u →
        SetTo mask (Chosen p.cdpOn scope classId socket) s u)
      ∧ ∀ e u, (setL3CosOn (hwBackend p) classId mask scope socket).run s = .error e u →
        u.mem = s.mem ∨ Torn p mask scope classId socket (fun _ => False) s u := by
  rcases setL3CosOn_cases p classId mask scope socket s with
    ⟨e, v, hrun, hv⟩ | ⟨c, core, v, hc, hcore, hk, hscope, hv, hrun⟩
  · rw [hrun]
    refine ⟨fun u hu => ?_, fun e' u hu => ?_⟩
    · cases hu
    · cases hu
      exact Or.inl (Confined.mem hv)
  · have hcdp : c.cdpOn = p.cdpOn := Platform.cdpOn_eq (l3caCdpEnabled_ok.2 ⟨c, hc, rfl⟩)
    rw [hcdp] at hrun hscope
    rw [hrun]
    cases hon : p.cdpOn <;> rw [hon] at hscope
    · obtain ⟨hok, herror⟩ := setL3_noCdp hcore hk (by simpa using hscope) rfl hv
      exact ⟨hok, fun e u hu => Or.inl (herror e u hu)⟩
    · exact setL3_cdp hon hcore hk rfl hv

/-- Masks for code or for data alone are nothing to a socket without CDP. -/
theorem setL3CosOn_noCdp (hon : p.cdpOn = false) (hscope : scope ≠ .both) (classId : Nat)
    (mask : Word) (socket : Nat) (s : Msr) :
    ∃ e t, (setL3CosOn (hwBackend p) classId mask scope socket).run s = .error e t
      ∧ ∀ W, Confined p W s t := by
  rcases setL3CosOn_cases p classId mask scope socket s with
    h | ⟨c, core, v, hc, hcore, hk, hboth, hv, hrun⟩
  · exact h
  · have hcdp : c.cdpOn = p.cdpOn := Platform.cdpOn_eq (l3caCdpEnabled_ok.2 ⟨c, hc, rfl⟩)
    rw [hcdp, hon] at hboth
    exact absurd (hboth.resolve_left (by simp)) hscope

end Socket

/-! ## All sockets -/

section Loop

variable {p : Platform} {classId : Nat} {mask : Word} {scope : UpdateScope} {s t u : Msr}

theorem Torn.after {socket : Nat} {R R' Q : Loc → Prop} (hR : SetTo mask R s t)
    (h : Torn p mask scope classId socket R' t u) (hQ : ∀ l, R l ∨ R' l ↔ Q l) :
    Torn p mask scope classId socket Q s u where
  cdpOn := h.cdpOn
  data := h.data
  failed := h.failed
  set := (hR.trans h.set).congr fun l => by rw [← hQ, or_assoc]

theorem OnSockets.nil {cdpOn : Bool} (l : Loc) : ¬ OnSockets cdpOn scope classId [] l := by
  rintro ⟨_, h, -⟩
  cases h

theorem OnSockets.cons {cdpOn : Bool} {socket : Nat} {sockets : List Nat} {l : Loc} :
    OnSockets cdpOn scope classId (socket :: sockets) l
      ↔ Chosen cdpOn scope classId socket l ∨ OnSockets cdpOn scope classId sockets l := by
  simp [OnSockets]

/-- The loop ends in a state where a prefix of the sockets is set, as many as it counted, and where
the next one may be torn. -/
theorem setL3CosLoop_spec (p : Platform) (classId : Nat) (mask : Word) (scope : UpdateScope) :
    ∀ (ids : List Nat) (s : Msr), ∃ pre post, ids = pre ++ post
      ∧ (setL3CosLoop (hwBackend p) classId mask scope ids s).1 = pre.length
      ∧ (SetTo mask (OnSockets p.cdpOn scope classId pre) s
            (setL3CosLoop (hwBackend p) classId mask scope ids s).2
          ∨ ∃ next rest, post = next :: rest
            ∧ Torn p mask scope classId next (OnSockets p.cdpOn scope classId pre) s
              (setL3CosLoop (hwBackend p) classId mask scope ids s).2)
  | [], s => ⟨[], [], rfl, rfl, Or.inl (SetTo.of_mem rfl OnSockets.nil)⟩
  | socket :: ids, s => by
    obtain ⟨hok, herror⟩ := setL3CosOn_step p classId mask scope socket s
    rcases hr : (setL3CosOn (hwBackend p) classId mask scope socket).run s with ⟨⟨⟩, t⟩ | ⟨e, t⟩
    · have hset := hok t hr
      obtain ⟨pre, post, hids, hlen, hrest⟩ := setL3CosLoop_spec p classId mask scope ids t
      refine ⟨socket :: pre, post, by rw [hids, List.cons_append], ?_, ?_⟩
      · simp only [setL3CosLoop, hr, hlen, List.length_cons]
      · simp only [setL3CosLoop, hr]
        rcases hrest with hrest | ⟨next, rest, hpost, htorn⟩
        · exact Or.inl ((hset.trans hrest).congr fun _ => OnSockets.cons.symm)
        · exact Or.inr ⟨next, rest, hpost, htorn.after hset fun _ => OnSockets.cons.symm⟩
    · refine ⟨[], socket :: ids, rfl, by simp only [setL3CosLoop, hr, List.length_nil], ?_⟩
      simp only [setL3CosLoop, hr]
      rcases herror e t hr with hmem | htorn
      · exact Or.inl (SetTo.of_mem hmem OnSockets.nil)
      · exact Or.inr ⟨socket, ids, rfl,
          htorn.after (SetTo.of_mem rfl OnSockets.nil) fun _ => by rw [or_false]⟩

theorem setL3CosLoop_noCdp (hon : p.cdpOn = false) (hscope : scope ≠ .both) (ids : List Nat)
    (W : Nat → Nat → Prop) :
    Confined p W s (setL3CosLoop (hwBackend p) classId mask scope ids s).2 := by
  cases ids with
  | nil => exact Confined.isFrame.refl s
  | cons socket ids =>
    obtain ⟨e, t, hrun, ht⟩ := setL3CosOn_noCdp hon hscope classId mask socket s
    simp only [setL3CosLoop, hrun]
    exact ht W

end Loop

/-! ## The setter -/

/-- What a run of the setter left, by what it returned. -/
structure SetsWell (p : Platform) (classId : Nat) (mask : Word) (scope : UpdateScope)
    (ids : List Nat) (selAllocMod : BitVec 32) (s : Msr) (r : CosSet Msr) : Prop where
  all : r.ret = ids.length → SetTo mask (OnSockets p.cdpOn scope classId ids) s r.lib
  stopped : r.ret = -1 → ∃ pre post, ids = pre ++ post
    ∧ r.selAllocMod = selAllocMod + BitVec.ofNat 32 pre.length
    ∧ (SetTo mask (OnSockets p.cdpOn scope classId pre) s r.lib
      ∨ ∃ next rest, post = next :: rest
        ∧ Torn p mask scope classId next (OnSockets p.cdpOn scope classId pre) s r.lib)
  noCdp : p.cdpOn = false → scope ≠ .both → Confined p (fun _ _ => False) s r.lib

theorem SetsWell.refused (p : Platform) (classId : Nat) (mask : Word) (scope : UpdateScope)
    (ids : List Nat) (selAllocMod : BitVec 32) (s : Msr) :
    SetsWell p classId mask scope ids selAllocMod s ⟨-1, selAllocMod, s⟩ where
  all h := absurd h (by simp only; omega)
  stopped _ := ⟨[], ids, rfl, by simp, Or.inl (SetTo.of_mem rfl OnSockets.nil)⟩
  noCdp _ _ := Confined.isFrame.refl s

theorem setL3Cos_setsWell (p : Platform) (classId : Nat) (mask : Word) (scope : UpdateScope)
    (sockIds : Option (List Nat)) (selAllocMod : BitVec 32) (s : Msr) :
    SetsWell p classId mask scope (sockIds.getD []) selAllocMod s
      (setL3Cos (hwBackend p) classId mask sockIds scope selAllocMod s) := by
  rcases sockIds with _ | ids
  · exact SetsWell.refused p classId mask scope [] selAllocMod s
  by_cases hmask : mask = 0
  · rw [setL3Cos, if_pos hmask]
    exact SetsWell.refused p classId mask scope ids selAllocMod s
  obtain ⟨pre, post, hids, hlen, hset⟩ := setL3CosLoop_spec p classId mask scope ids s
  rw [setL3Cos, if_neg hmask, Option.getD_some]
  refine ⟨fun hret => ?_, fun _ => ⟨pre, post, hids, by simp only [hlen], hset⟩,
    fun hon hscope => setL3CosLoop_noCdp hon hscope ids _⟩
  -- a return of the number of sockets leaves no socket behind the prefix
  have hall : ¬ pre.length < ids.length := by
    intro hlt
    simp only [hlen, if_pos hlt] at hret
    omega
  obtain rfl : post = [] := by
    rw [hids, List.length_append] at hall
    exact List.length_eq_zero_iff.1 (by omega)
  rw [List.append_nil] at hids
  subst hids
  rcases hset with hset | ⟨_, _, h, -⟩
  · exact hset
  · cases h

/-! ## Half a class -/

/-- One socket with CDP on, where the first code mask cannot be written. -/
def codeFailsPlatform : Platform :=
  { smallPlatform [⟨true, .l3ca ⟨1, 11, 0, true, true⟩⟩] with
    fails := fun _ a => a matches .wr _ 0xC91 _ }

/-- The setter says that it set no socket, and the data mask is set. -/
theorem setL3Cos_halfSet : ¬ ∀ (p : Platform) (classId : Nat) (mask : Word) (scope : UpdateScope)
    (ids : List Nat) (selAllocMod : BitVec 32) (s : Msr), isContiguous mask = true →
    (setL3Cos (hwBackend p) classId mask (some ids) scope selAllocMod s).ret = -1 →
    ∃ pre post, ids = pre ++ post
      ∧ (setL3Cos (hwBackend p) classId mask (some ids) scope selAllocMod s).selAllocMod
        = selAllocMod + BitVec.ofNat 32 pre.length
      ∧ SetTo mask (OnSockets p.cdpOn scope classId pre) s
        (setL3Cos (hwBackend p) classId mask (some ids) scope selAllocMod s).lib := by
  intro h
  obtain ⟨pre, post, hids, hmod, hset⟩ := h codeFailsPlatform 0 1 .both [0] 0 ⟨fun _ => 3, []⟩
    (by decide) (by decide)
  rcases List.append_eq_singleton_iff.1 hids.symm with ⟨rfl, -⟩ | ⟨rfl, -⟩
  · exact absurd ((hset (.socket 0 0xC90)).2 (OnSockets.nil _)) (by decide +kernel)
  · exact absurd hmod (by decide)

end Pqos
