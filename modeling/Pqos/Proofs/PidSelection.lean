import Mathlib.Algebra.Group.Int.Defs
import Pqos.Proofs.CoreSelection

/-!
# The processes that are selected

pqos rejects a selection that fills its list, so what a selection names is what it adds; but the
table that it adds them to skips a process when it is full. rdtset checks what a list has made
against the room that is left, and the list has been cut to the whole table before. Either way the
processes are all there if they fit the table together, and a process is a 31-bit number.
-/

namespace Pqos

open CText Distinct Prog

/-- The table holds the processes, each of which is a process number. -/
def PidsFit (values : List Nat) (max : Nat) : Prop :=
  (∀ v ∈ values, v < 2 ^ 31) ∧ values.toFinset.card ≤ max

theorem pidT_of_lt {v : Nat} (h : v < 2 ^ 31) : pidT v = v := by
  have hval : (BitVec.ofNat 32 v).toNat = v := by
    rw [BitVec.toNat_ofNat]
    exact Nat.mod_eq_of_lt (by omega)
  rw [pidT, BitVec.toInt_eq_toNat_of_lt (by omega), hval]

theorem pidT_lt (v : Nat) : pidT v < 2 ^ 31 := by
  have := BitVec.toInt_lt (x := BitVec.ofNat 32 v)
  simpa [pidT] using this

/-- Processes that are in a table of this size fit it. -/
theorem pidsFit_of_mem {values : List Nat} {pids : List Int} {max : Nat}
    (h : ∀ v ∈ values, (v : Int) ∈ pids) (hlt : ∀ pid ∈ pids, pid < 2 ^ 31)
    (hlen : pids.length ≤ max) : PidsFit values max := by
  refine ⟨fun v hv => ?_, ?_⟩
  · have := hlt v (h v hv)
    omega
  · have himage : values.toFinset.image (Nat.cast : Nat → Int) ⊆ pids.toFinset := by
      intro pid hpid
      obtain ⟨v, hv, rfl⟩ := Finset.mem_image.1 hpid
      exact List.mem_toFinset.2 (h v (List.mem_toFinset.1 hv))
    have hcard := Finset.card_le_card himage
    have hinj : Function.Injective (Nat.cast : Nat → Int) := fun v w hvw => Int.ofNat.inj hvw
    rw [Finset.card_image_of_injective _ hinj] at hcard
    have := pids.toFinset_card_le
    omega

/-- A list of few enough numbers is not cut. -/
theorem stored_all {s : List Char} {max : Nat} (hsmall : ∀ v ∈ named s, v < 2 ^ 32)
    (hcard : (named s).toFinset.card ≤ max) : stored s max = (named s).eraseDups := by
  have hlength : (named s).eraseDups.length ≤ max := by
    have hsets : (named s).eraseDups.toFinset = (named s).toFinset := by
      ext v
      rw [List.mem_toFinset, List.mem_toFinset, List.mem_eraseDups]
    rwa [← hsets, List.toFinset_card_of_nodup (nodup_eraseDups _)] at hcard
  rw [stored_small hsmall, List.take_of_length_le hlength]

/-- A list that fits is not cut. -/
theorem stored_of_fits {s : List Char} {max : Nat} (h : PidsFit (named s) max) :
    stored s max = (named s).eraseDups :=
  stored_all (fun v hv => Nat.lt_trans (h.1 v hv) (by decide)) h.2

theorem listToTab_ok {s : List Char} {max : Nat} {tab : List Nat} (hmax : max < 2 ^ 64)
    (h : listToTab s max = .ok tab) : tab = stored s max := by
  rcases listToTab_cases s hmax with hok | ⟨herr, -⟩
  · exact Except.ok.inj (h.symm.trans hok)
  · rw [herr] at h
    cases h

theorem PidsFit.mono {values more : List Nat} {max : Nat} (h : PidsFit more max)
    (hsub : ∀ v ∈ values, v ∈ more) : PidsFit values max := by
  refine ⟨fun v hv => h.1 v (hsub v hv), Nat.le_trans (Finset.card_le_card fun v hv => ?_) h.2⟩
  exact List.mem_toFinset.2 (hsub v (List.mem_toFinset.1 hv))

/-! ## rdtset -/

/-- A sequence of options of rdtset. -/
def rdtsetPids (opts : List (List Char)) : Except Halt (List Int) := opts.foldlM parsePids []

section Rdtset

variable {opts : List (List Char)} {pids pids' : List Int} {str : List Char}

theorem parsePids_ok (h : parsePids pids str = .ok pids') :
    pids' = pids ++ (stored str rdtMaxPids).map pidT
      ∧ (stored str rdtMaxPids).length ≤ rdtMaxPids - pids.length := by
  unfold parsePids at h
  obtain ⟨tab, htab, h⟩ := except_bind_ok.1 h
  obtain rfl := listToTab_ok (by decide) htab
  split_ifs at h with hnone hroom
  exact ⟨(Except.ok.inj h).symm, Nat.not_lt.1 hroom⟩

/-- The table stays within its size, and has numbers of processes. -/
theorem rdtsetPids_bounds (hlen : pids.length ≤ rdtMaxPids) (hlt : ∀ pid ∈ pids, pid < 2 ^ 31)
    (h : opts.foldlM parsePids pids = .ok pids') :
    pids'.length ≤ rdtMaxPids ∧ ∀ pid ∈ pids', pid < 2 ^ 31 := by
  induction opts generalizing pids with
  | nil =>
    obtain rfl : pids = pids' := Except.ok.inj h
    exact ⟨hlen, hlt⟩
  | cons str opts ih =>
    rw [List.foldlM_cons, except_bind_ok] at h
    obtain ⟨next, hnext, hrest⟩ := h
    obtain ⟨rfl, hroom⟩ := parsePids_ok hnext
    refine ih ?_ (fun pid hpid => ?_) hrest
    · rw [List.length_append, List.length_map]
      omega
    · rcases List.mem_append.1 hpid with hpid | hpid
      · exact hlt pid hpid
      · obtain ⟨v, -, rfl⟩ := List.mem_map.1 hpid
        exact pidT_lt v

/-- What fits the table is in it. -/
theorem rdtsetPids_mem (hfit : PidsFit (opts.flatMap named) rdtMaxPids)
    (h : opts.foldlM parsePids pids = .ok pids') :
    (∀ pid ∈ pids, pid ∈ pids') ∧ ∀ v ∈ opts.flatMap named, (v : Int) ∈ pids' := by
  induction opts generalizing pids with
  | nil =>
    obtain rfl : pids = pids' := Except.ok.inj h
    exact ⟨fun _ hpid => hpid, by simp⟩
  | cons str opts ih =>
    rw [List.foldlM_cons, except_bind_ok] at h
    obtain ⟨next, hnext, hrest⟩ := h
    obtain ⟨rfl, -⟩ := parsePids_ok hnext
    rw [List.flatMap_cons] at hfit ⊢
    have hhere : PidsFit (named str) rdtMaxPids :=
      hfit.mono fun v hv => List.mem_append_left _ hv
    obtain ⟨hkeep, hmem⟩ := ih (hfit.mono fun v hv => List.mem_append_right _ hv) hrest
    refine ⟨fun pid hpid => hkeep pid (List.mem_append_left _ hpid), fun v hv => ?_⟩
    rcases List.mem_append.1 hv with hv | hv
    · refine hkeep v (List.mem_append_right _ (List.mem_map.2 ⟨v, ?_, pidT_of_lt (hhere.1 v hv)⟩))
      rw [stored_of_fits hhere]
      exact List.mem_eraseDups.2 hv
    · exact hmem v hv

theorem rdtsetPids_iff (h : rdtsetPids opts = .ok pids') :
    (∀ v ∈ opts.flatMap named, (v : Int) ∈ pids')
      ↔ PidsFit (opts.flatMap named) rdtMaxPids := by
  constructor
  · intro hmem
    obtain ⟨hlen, hlt⟩ := rdtsetPids_bounds (by decide) (by simp) h
    exact pidsFit_of_mem hmem hlt hlen
  · exact fun hfit => (rdtsetPids_mem hfit h).2

end Rdtset

/-! ## pqos -/

/-- The processes that one selection of an option names, with its events. -/
def pidsOf (str : List Char) : List (Nat × MonEvent) :=
  match parseEvent str 0 with
  | .ok (evt, _) => (named (behindColon str)).eraseDups.map fun v => (v, evt)
  | .error _ => []

/-- The processes that a sequence of options names. -/
def pidRunNames (opts : List (List Char)) : List (Nat × MonEvent) :=
  opts.flatMap fun arg => (strtok ';' arg).flatMap pidsOf

/-- A sequence of options of pqos. -/
def monitorPids (opts : List (List Char)) : Except Halt Selected :=
  opts.foldlM selfnMonitorPids noneSelected

/-- A process that is named, as a set and its events. -/
def pidCell (n : Nat × MonEvent) : Finset Int × MonEvent := ({(n.1 : Int)}, n.2)

def PidGroup.cell (pg : PidGroup) : Finset Int × MonEvent := ({pg.pid}, pg.events)

/-- Each process named is in the table once, with the events of all that named it. -/
structure PidsSelected (names : List (Nat × MonEvent)) (tab : List PidGroup) : Prop where
  once : ∀ n ∈ names, tab.countP (fun pg => pg.pid = (n.1 : Int)) = 1
  events : ∀ pg ∈ tab, ∀ n ∈ names, pg.pid = (n.1 : Int) →
    pg.events = ((names.filter fun m => m.1 = n.1).map Prod.snd).foldl (· ||| ·) 0

/-- The table of the processes named. -/
def KeepsPids (names : List (Nat × MonEvent)) (tab : List PidGroup) : Prop :=
  Cells.Kept (· ||| ·) 0 (names.map pidCell) (tab.map PidGroup.cell)

section Pqos

variable {names : List (Nat × MonEvent)} {tab : List PidGroup} {pid : Int} {evt : MonEvent}
  {sel sel' : Selected} {str arg : List Char} {opts : List (List Char)}

/-- What the search for a process's entry ends with. -/
theorem markPid_cases (pid : Int) (evt : MonEvent) (tab : List PidGroup) :
    (markPid pid evt tab = none ∧ ∀ pg ∈ tab, pg.pid ≠ pid)
      ∨ ∃ pre pg post, tab = pre ++ pg :: post ∧ pg.pid = pid
        ∧ markPid pid evt tab
          = some (pre ++ { pg with events := pg.events ||| evt } :: post) := by
  induction tab with
  | nil => exact Or.inl ⟨rfl, by simp⟩
  | cons pg tab ih =>
    rw [markPid]
    split_ifs with hpid
    · exact Or.inr ⟨[], pg, tab, rfl, hpid, rfl⟩
    · rcases ih with ⟨hrest, hall⟩ | ⟨pre, d, post, rfl, heq, hrest⟩
      · rw [hrest]
        exact Or.inl ⟨rfl, List.forall_mem_cons.2 ⟨hpid, hall⟩⟩
      · rw [hrest]
        exact Or.inr ⟨pg :: pre, d, post, rfl, heq, rfl⟩

theorem pidCells_card (hfit : PidsFit (names.map Prod.fst) pqosMaxPids) :
    ((names.map pidCell).map Prod.fst).toFinset.card ≤ pqosMaxPids := by
  have himage : ((names.map pidCell).map Prod.fst).toFinset
      ⊆ (names.map Prod.fst).toFinset.image fun v : Nat => ({(v : Int)} : Finset Int) := by
    intro s hs
    rw [List.mem_toFinset, List.map_map] at hs
    obtain ⟨n, hn, rfl⟩ := List.mem_map.1 hs
    exact Finset.mem_image.2 ⟨n.1, List.mem_toFinset.2 (List.mem_map_of_mem hn), rfl⟩
  exact Nat.le_trans (Finset.card_le_card himage) (Nat.le_trans Finset.card_image_le hfit.2)

/-- A process that has room is added, or its entry gets the events. -/
theorem addPidForMonitoring_keeps {v : Nat} (h : KeepsPids names tab)
    (hfit : PidsFit ((names ++ [(v, evt)]).map Prod.fst) pqosMaxPids) :
    KeepsPids (names ++ [(v, evt)]) (addPidForMonitoring evt tab (pidT v)) := by
  have hv : pidT v = v := pidT_of_lt (hfit.1 v (by simp))
  have hcard := pidCells_card hfit
  unfold KeepsPids addPidForMonitoring at *
  rw [hv]
  rw [List.map_append, List.map_cons, List.map_nil] at hcard ⊢
  rcases markPid_cases (v : Int) evt tab with
    ⟨hmark, hnone⟩ | ⟨pre, pg, post, rfl, heq, hmark⟩ <;> rw [hmark]
  · have hdis : ∀ c ∈ tab.map PidGroup.cell, Disjoint c.1 (pidCell (v, evt)).1 := by
      intro c hc
      obtain ⟨pg, hpg, rfl⟩ := List.mem_map.1 hc
      exact Finset.disjoint_singleton.2 (hnone pg hpg)
    have hnew := h.add (e := evt) (by simp) hdis fun hempty =>
      absurd hempty (Finset.singleton_ne_empty _)
    have hroom : tab.length < pqosMaxPids := by
      have hlength := hnew.length_eq
      rw [List.length_append, List.length_map, List.length_singleton] at hlength
      have hsame : (pidCell (v, evt)).1 = (pidCell (v, evt)).1 ∧ pidCell (v, evt)
          = ((pidCell (v, evt)).1, evt) := ⟨rfl, rfl⟩
      rw [hsame.2] at hcard
      omega
    simp only [hroom, if_true]
    rw [List.map_append]
    exact hnew
  · have hcell : pg.cell = ((pidCell (v, evt)).1, pg.events) := by
      rw [PidGroup.cell, heq]
      rfl
    rw [List.map_append, List.map_cons, hcell] at h
    have hnew := h.merge (e := evt)
    rw [List.map_append, List.map_cons]
    have hmarked : PidGroup.cell { pg with events := pg.events ||| evt }
        = ((pidCell (v, evt)).1, pg.events ||| evt) := by
      rw [PidGroup.cell, heq]
      rfl
    rw [hmarked]
    exact hnew

theorem addPids_keeps {values : List Nat} (h : KeepsPids names tab)
    (hfit : PidsFit ((names ++ values.map fun v => (v, evt)).map Prod.fst) pqosMaxPids) :
    KeepsPids (names ++ values.map fun v => (v, evt))
      ((values.map pidT).foldl (addPidForMonitoring evt) tab) := by
  induction values generalizing names tab with
  | nil => rwa [List.map_nil, List.append_nil]
  | cons v values ih =>
    have hsplit : names ++ (v :: values).map (fun v => (v, evt))
        = (names ++ [(v, evt)]) ++ values.map fun v => (v, evt) := by
      rw [List.append_assoc]
      rfl
    rw [hsplit] at hfit ⊢
    refine ih (addPidForMonitoring_keeps h (hfit.mono fun w hw => ?_)) hfit
    rw [List.map_append]
    exact List.mem_append_left _ hw

/-- What a selection that is accepted adds. -/
theorem selStoreProcessId_ok (h : selStoreProcessId sel str = .ok sel') :
    ∃ evt eventsMax, parseEvent str 0 = .ok (evt, eventsMax)
      ∧ (stored (behindColon str) pqosMaxPids).length < pqosMaxPids
      ∧ sel'.selMonitorPidTab = ((stored (behindColon str) pqosMaxPids).map pidT).foldl
        (addPidForMonitoring evt) sel.selMonitorPidTab := by
  unfold selStoreProcessId at h
  obtain ⟨⟨evt, eventsMax⟩, hevt, h⟩ := except_bind_ok.1 h
  obtain ⟨processes, hprocesses, h⟩ := except_bind_ok.1 h
  obtain rfl := listToTab_ok (by decide) hprocesses
  obtain ⟨eventsMax₀, hevt₀⟩ := parseEvent_evt hevt
  split_ifs at h with hnone hmany
  obtain rfl := Except.ok.inj h
  exact ⟨evt, eventsMax₀, hevt₀, Nat.not_le.1 hmany, rfl⟩

theorem selStoreProcessId_keeps (h : KeepsPids names sel.selMonitorPidTab)
    (hfit : PidsFit ((names ++ pidsOf str).map Prod.fst) pqosMaxPids)
    (hok : selStoreProcessId sel str = .ok sel') :
    KeepsPids (names ++ pidsOf str) sel'.selMonitorPidTab := by
  obtain ⟨evt, eventsMax, hevt, -, htab⟩ := selStoreProcessId_ok hok
  have hpids : pidsOf str
      = (named (behindColon str)).eraseDups.map fun v => (v, evt) := by rw [pidsOf, hevt]
  have hhere : PidsFit (named (behindColon str)) pqosMaxPids := by
    refine hfit.mono fun v hv => ?_
    rw [hpids, List.map_append, List.map_map]
    refine List.mem_append_right _ (List.mem_map.2 ⟨v, List.mem_eraseDups.2 hv, rfl⟩)
  rw [htab, stored_of_fits hhere]
  rw [hpids] at hfit ⊢
  exact addPids_keeps h hfit

theorem PidsFit.of_append {names more : List (Nat × MonEvent)} {max : Nat}
    (h : PidsFit ((names ++ more).map Prod.fst) max) : PidsFit (names.map Prod.fst) max :=
  h.mono fun v hv => by
    rw [List.map_append]
    exact List.mem_append_left _ hv

theorem monitorPids_keeps (hfit : PidsFit ((pidRunNames opts).map Prod.fst) pqosMaxPids)
    (hok : monitorPids opts = .ok sel) : KeepsPids (pidRunNames opts) sel.selMonitorPidTab := by
  have hstart : KeepsPids [] noneSelected.selMonitorPidTab := Cells.Kept.nil
  change KeepsPids ([] ++ opts.flatMap fun arg => (strtok ';' arg).flatMap pidsOf) _
  refine except_foldlM_gathers (fun names sel => KeepsPids names sel.selMonitorPidTab)
    (fun names => PidsFit (names.map Prod.fst) pqosMaxPids) PidsFit.of_append
    (fun arg _ names sel sel' h hfit hok => ?_) hstart hfit hok
  unfold selfnMonitorPids at hok
  split_ifs at hok
  exact except_foldlM_gathers (fun names sel => KeepsPids names sel.selMonitorPidTab)
    (fun names => PidsFit (names.map Prod.fst) pqosMaxPids) PidsFit.of_append
    (fun str _ _ _ _ h hfit hok => selStoreProcessId_keeps h hfit hok) h hfit hok

theorem KeepsPids.selected (h : KeepsPids names tab) : PidsSelected names tab := by
  have hone : ∀ n ∈ names, ({(n.1 : Int)} : Finset Int) ∈ (names.map pidCell).map Prod.fst :=
    fun n hn => List.mem_map_of_mem (List.mem_map_of_mem hn)
  refine ⟨fun n hn => ?_, fun pg hpg n hn hpid => ?_⟩
  · have honce := Cells.Kept.once h (hone n hn)
    rw [List.countP_map] at honce
    rw [← honce]
    refine List.countP_congr fun pg _ => ?_
    simp [PidGroup.cell]
  · have hlabel := h.label pg.cell (List.mem_map_of_mem hpg)
    have hfilter : ((names.map pidCell).filter fun c => c.1 = pg.cell.1).map Prod.snd
        = (names.filter fun m => m.1 = n.1).map Prod.snd := by
      rw [List.filter_map, List.map_map]
      refine congrArg _ (List.filter_congr fun m _ => ?_)
      have hcast : (m.1 : Int) = n.1 ↔ m.1 = n.1 := Int.ofNat_inj
      simp only [Function.comp_apply, pidCell, PidGroup.cell, hpid, Finset.singleton_inj, hcast]
    rw [Cells.labelOf, hfilter] at hlabel
    exact hlabel

/-! The table stays within its size, and has numbers of processes. -/

def PidsBounded (tab : List PidGroup) : Prop :=
  tab.length ≤ pqosMaxPids ∧ ∀ pg ∈ tab, pg.pid < 2 ^ 31

theorem addPidForMonitoring_bounded {v : Nat} (h : PidsBounded tab) :
    PidsBounded (addPidForMonitoring evt tab (pidT v)) := by
  unfold addPidForMonitoring
  rcases markPid_cases (pidT v) evt tab with
    ⟨hmark, -⟩ | ⟨pre, pg, post, rfl, -, hmark⟩ <;> rw [hmark]
  · dsimp only
    split_ifs with hroom
    · refine ⟨by rw [List.length_append, List.length_singleton]; omega, fun pg hpg => ?_⟩
      rcases List.mem_append.1 hpg with hpg | hpg
      · exact h.2 pg hpg
      · rw [List.mem_singleton.1 hpg]
        exact pidT_lt v
    · exact h
  · refine ⟨by simpa using h.1, fun d hd => ?_⟩
    rcases List.mem_append.1 hd with hd | hd
    · exact h.2 d (List.mem_append_left _ hd)
    rcases List.mem_cons.1 hd with rfl | hd
    · exact h.2 pg (by simp)
    · exact h.2 d (by simp [hd])

theorem addPids_bounded {values : List Nat} (h : PidsBounded tab) :
    PidsBounded ((values.map pidT).foldl (addPidForMonitoring evt) tab) := by
  induction values generalizing tab with
  | nil => exact h
  | cons v values ih => exact ih (addPidForMonitoring_bounded h)

/-- One state has a bounded table if the one before has. -/
def Bounds (sel sel' : Selected) : Prop :=
  PidsBounded sel.selMonitorPidTab → PidsBounded sel'.selMonitorPidTab

theorem selfnMonitorPids_bounds (hok : selfnMonitorPids sel arg = .ok sel') : Bounds sel sel' := by
  unfold selfnMonitorPids at hok
  split_ifs at hok
  refine except_foldlM_ok (R := Bounds) (fun _ h => h) (fun h h' hb => h' (h hb))
    (fun sel str sel' hstr hb => ?_) hok
  obtain ⟨evt, eventsMax, -, -, htab⟩ := selStoreProcessId_ok hstr
  rw [htab]
  exact addPids_bounded hb

theorem monitorPids_bounded (hok : monitorPids opts = .ok sel) :
    PidsBounded sel.selMonitorPidTab :=
  except_foldlM_ok (R := Bounds) (fun _ h => h) (fun h h' hb => h' (h hb))
    (fun _ _ _ => selfnMonitorPids_bounds) hok ⟨by decide, by simp [noneSelected]⟩

theorem monitorPids_iff (h : monitorPids opts = .ok sel) :
    PidsSelected (pidRunNames opts) sel.selMonitorPidTab
      ↔ PidsFit ((pidRunNames opts).map Prod.fst) pqosMaxPids := by
  constructor
  · intro hsel
    obtain ⟨hlen, hlt⟩ := monitorPids_bounded h
    have hmem : ∀ v ∈ (pidRunNames opts).map Prod.fst,
        (v : Int) ∈ sel.selMonitorPidTab.map PidGroup.pid := by
      intro v hv
      obtain ⟨n, hn, rfl⟩ := List.mem_map.1 hv
      have hpos : 0 < sel.selMonitorPidTab.countP fun pg => pg.pid = (n.1 : Int) := by
        rw [hsel.once n hn]
        decide
      obtain ⟨pg, hpg, hpid⟩ := List.countP_pos_iff.1 hpos
      exact List.mem_map.2 ⟨pg, hpg, of_decide_eq_true hpid⟩
    refine pidsFit_of_mem hmem (fun pid hpid => ?_) (by rwa [List.length_map])
    obtain ⟨pg, hpg, rfl⟩ := List.mem_map.1 hpid
    exact hlt pg hpg
  · exact fun hfit => (monitorPids_keeps hfit h).selected

end Pqos

/-! ## Both tools -/

/-- No process is lost in a sequence of options of pqos that it accepts. -/
def KeepsSelected (opts : List (List Char)) : Prop :=
  ∀ sel, monitorPids opts = .ok sel → PidsSelected (pidRunNames opts) sel.selMonitorPidTab

/-- No process is lost in a sequence of options of rdtset that it accepts. -/
def KeepsListed (opts : List (List Char)) : Prop :=
  ∀ pids, rdtsetPids opts = .ok pids → ∀ v ∈ opts.flatMap named, (v : Int) ∈ pids

/-- No process is lost exactly if the processes that accepted options name are 31-bit numbers and
fit the table together. -/
theorem selectedPids_iff (opts opts' : List (List Char)) :
    (KeepsSelected opts ↔ ∀ sel, monitorPids opts = .ok sel →
      PidsFit ((pidRunNames opts).map Prod.fst) pqosMaxPids)
    ∧ (KeepsListed opts' ↔ ∀ pids, rdtsetPids opts' = .ok pids →
      PidsFit (opts'.flatMap named) rdtMaxPids) := by
  constructor
  · exact forall_congr' fun sel => forall_congr' fun hok => monitorPids_iff hok
  · exact forall_congr' fun pids => forall_congr' fun hok => rdtsetPids_iff hok

/-- A list of one range, and what is stored of it. -/
theorem stored_range (max : Nat) {s : List Char} {a b : Nat} (hitems : namedItems s = [.range a b])
    (hread : ¬ Unread s) (hab : a ≤ b) (hb : b < 2 ^ 31) (hmax : max < 2 ^ 64) :
    named s = List.range' a (b + 1 - a) ∧ listToTab s max = .ok (stored s max)
      ∧ (stored s max).length = min max (b + 1 - a) := by
  have hnamed : named s = List.range' a (b + 1 - a) := by
    rw [named, hitems]
    simp [listed, NumItem.values, Nat.min_eq_left hab, Nat.max_eq_right hab]
  refine ⟨hnamed, ?_, ?_⟩
  · exact (listToTab_cases s hmax).resolve_right fun h => hread h.2
  · have hsmall : ∀ v ∈ named s, v < 2 ^ 32 := by
      intro v hv
      rw [hnamed, List.mem_range'_1] at hv
      omega
    rw [stored_small hsmall, hnamed, eraseDups_of_nodup List.nodup_range', List.length_take,
      List.length_range']

/-- A selection of a range that is short enough is accepted. -/
theorem selStoreProcessId_accepts (sel : Selected) {str : List Char} {a b : Nat}
    (hevt : ∀ m, parseEvent str m = .ok (pqosMonEventAll, m))
    (hitems : namedItems (behindColon str) = [.range a b]) (hread : ¬ Unread (behindColon str))
    (hab : a ≤ b) (hb : b + 1 - a < pqosMaxPids) (hlt : b < 2 ^ 31) :
    ∃ sel', selStoreProcessId sel str = .ok sel' := by
  obtain ⟨-, htab, hlength⟩ := stored_range pqosMaxPids hitems hread hab hlt (by decide)
  have hne : stored (behindColon str) pqosMaxPids ≠ [] := by
    intro hnil
    rw [hnil, List.length_nil] at hlength
    omega
  unfold selStoreProcessId
  rw [hevt, Main.strlisttotab, htab]
  simp only [bind, Except.bind]
  rw [if_neg hne, if_neg (by omega)]
  exact ⟨_, rfl⟩

/-- The second option names two processes, the table has room for one. -/
def twoOptions : List (List Char) := ["all:1-127".toList, "all:128-129".toList]

theorem twoOptions_tokens : strtok ';' "all:1-127".toList = ["all:1-127".toList]
    ∧ strtok ';' "all:128-129".toList = ["all:128-129".toList]
    ∧ namedItems (behindColon "all:1-127".toList) = [.range 1 127]
    ∧ namedItems (behindColon "all:128-129".toList) = [.range 128 129] := by decide

theorem twoOptions_read : ¬ Unread (behindColon "all:1-127".toList)
    ∧ ¬ Unread (behindColon "all:128-129".toList) := by
  unfold Unread
  decide

theorem twoOptions_events (m : MonEvent) :
    parseEvent "all:1-127".toList m = .ok (pqosMonEventAll, m)
      ∧ parseEvent "all:128-129".toList m = .ok (pqosMonEventAll, m) := ⟨rfl, rfl⟩

theorem twoOptions_accepted : ∃ sel, monitorPids twoOptions = .ok sel := by
  obtain ⟨htok, htok', hitems, hitems'⟩ := twoOptions_tokens
  obtain ⟨sel, hsel⟩ := selStoreProcessId_accepts noneSelected (fun m => (twoOptions_events m).1)
    hitems twoOptions_read.1 (by decide) (by decide) (by decide)
  obtain ⟨sel', hsel'⟩ := selStoreProcessId_accepts sel (fun m => (twoOptions_events m).2)
    hitems' twoOptions_read.2 (by decide) (by decide) (by decide)
  have harg : "all:1-127".toList ≠ [] ∧ "all:128-129".toList ≠ [] := by decide
  refine ⟨sel', ?_⟩
  simp only [monitorPids, twoOptions, List.foldlM_cons, List.foldlM_nil, selfnMonitorPids,
    if_neg harg.1, if_neg harg.2, htok, htok', hsel, bind, Except.bind, pure, Except.pure, hsel']

/-- Two options name a process more than the table holds. -/
theorem twoOptions_named {v : Nat} (h : v ∈ List.range' 1 129) :
    v ∈ (pidRunNames twoOptions).map Prod.fst := by
  obtain ⟨htok, htok', hitems, hitems'⟩ := twoOptions_tokens
  have hnamed := (stored_range pqosMaxPids hitems twoOptions_read.1 (by decide) (by decide)
    (by decide)).1
  have hnamed' := (stored_range pqosMaxPids hitems' twoOptions_read.2 (by decide) (by decide)
    (by decide)).1
  have hpids : pidRunNames twoOptions
      = pidsOf "all:1-127".toList ++ pidsOf "all:128-129".toList := by
    simp only [pidRunNames, twoOptions, List.flatMap_cons, List.flatMap_nil, htok, htok',
      List.append_nil]
  rw [hpids, List.map_append, pidsOf, (twoOptions_events 0).1, pidsOf, (twoOptions_events 0).2]
  simp only [List.map_map, List.mem_append, List.mem_map, List.mem_eraseDups, hnamed, hnamed',
    List.mem_range'_1] at h ⊢
  rcases Nat.lt_or_ge v 128 with hv | hv
  · exact Or.inl ⟨v, by omega, rfl⟩
  · exact Or.inr ⟨v, by omega, rfl⟩

theorem not_pidsFit : ¬ PidsFit (List.range' 1 129) 128 := by
  intro h
  have hcard := h.2
  rw [List.toFinset_card_of_nodup List.nodup_range', List.length_range'] at hcard
  omega

/-- The list has a process more than the table, to which it is cut. -/
def longList : List Char := "1-129".toList

theorem longList_named : named longList = List.range' 1 129
    ∧ ∃ pids, rdtsetPids [longList] = .ok pids := by
  have hitems : namedItems longList = [.range 1 129] := by decide
  have hread : ¬ Unread longList := by
    unfold Unread
    decide
  obtain ⟨hnamed, htab, hlength⟩ :=
    stored_range rdtMaxPids hitems hread (by decide) (by decide) (by decide)
  have hne : stored longList rdtMaxPids ≠ [] := by
    intro hnil
    rw [hnil] at hlength
    revert hlength
    decide
  have hroom : ¬ rdtMaxPids - ([] : List Int).length < (stored longList rdtMaxPids).length := by
    rw [hlength]
    decide
  have hok : parsePids [] longList = .ok ([] ++ (stored longList rdtMaxPids).map pidT) := by
    unfold parsePids
    rw [Common.strlisttotab, htab]
    simp only [bind, Except.bind]
    rw [if_neg hne, if_neg hroom]
    rfl
  refine ⟨hnamed, [] ++ (stored longList rdtMaxPids).map pidT, ?_⟩
  rw [rdtsetPids, List.foldlM_cons, hok]
  rfl

/-- In each of the tools a process that an accepted option names is lost. -/
theorem selectedPids_lost :
    (¬ ∀ opts, KeepsSelected opts) ∧ ¬ ∀ opts, KeepsListed opts := by
  constructor
  · intro h
    obtain ⟨sel, hok⟩ := twoOptions_accepted
    have hfit := (monitorPids_iff hok).1 (h twoOptions sel hok)
    exact not_pidsFit (hfit.mono fun v hv => twoOptions_named hv)
  · intro h
    obtain ⟨hnamed, pids, hok⟩ := longList_named
    have hfit := (rdtsetPids_iff hok).1 (h [longList] pids hok)
    refine not_pidsFit (hfit.mono fun v hv => ?_)
    rw [List.flatMap_singleton, hnamed]
    exact hv

end Pqos
