import Pqos.Types
import Pqos.Lib.Distinct

/-!
# Looking up the topology and the capabilities

The lookups walk the core list and the capability list in order and take the first match. A
`Platform` is what the library's globals hold once it is initialised, together with the machine's
say over which register accesses fail.
-/

namespace Pqos

/-- A register access, as the MSR driver sees it. -/
inductive Access
  | rd (lcore reg : Nat)
  | wr (lcore reg : Nat) (val : Word)
deriving DecidableEq, Repr

def Access.lcore : Access → Nat
  | rd lcore _ => lcore
  | wr lcore _ _ => lcore

structure Platform where
  initDone : Bool
  interface : Interface
  cap : Cap
  cpu : CpuInfo
  /-- Whether an access fails, given the accesses made before it. -/
  fails : List Access → Access → Bool

/-! ## Topology -/

namespace CpuInfo

variable (cpu : CpuInfo)

/-- The distinct values of an id, in order of first appearance. -/
def ids (id : CoreInfo → Nat) : List Nat :=
  cpu.cores.foldl (fun l c => if id c ∈ l then l else l ++ [id c]) []

def getSockets : List Nat := cpu.ids CoreInfo.socket

def getL2ids : List Nat := cpu.ids CoreInfo.l2Id

def getCoresPerTopologyObj (id : CoreInfo → Nat) (obj : Nat) : List Nat :=
  (cpu.cores.filter fun c => id c = obj).map CoreInfo.lcore

def getCoresL3id (l3Id : Nat) : List Nat := cpu.getCoresPerTopologyObj CoreInfo.l3Id l3Id

def getCoreInfo (lcore : Nat) : Option CoreInfo := cpu.cores.find? fun c => c.lcore = lcore

def getOneCore (socket : Nat) : Except Err Nat :=
  match cpu.cores.find? fun c => c.socket = socket with
  | some c => .ok c.lcore
  | none => .error .error

def getOneByL2id (l2id : Nat) : Except Err Nat :=
  match cpu.cores.find? fun c => c.l2Id = l2id with
  | some c => .ok c.lcore
  | none => .error .error

def checkCore (lcore : Nat) : Except Err Unit :=
  match cpu.getCoreInfo lcore with
  | some _ => .ok ()
  | none => .error .error

def getClusterid (lcore : Nat) : Except Err Nat :=
  match cpu.getCoreInfo lcore with
  | some c => .ok c.l3Id
  | none => .error .error

end CpuInfo

/-! ## Capabilities -/

namespace Platform

variable (p : Platform)

/-- The same platform seen through an interface. -/
def on (i : Interface) : Platform := { p with interface := i }

/-- The first capability of the type `type` selects, past those the OS does not support. -/
def capGetType {α : Type} (type : CapItem → Option α) : Except Err α :=
  match p.cap.findSome? fun c =>
    if p.interface = .os ∧ c.osSupport = false then none else type c.u with
  | some c => .ok c
  | none => .error .resource

def l3caGetCosNum : Except Err Nat := (p.capGetType CapItem.l3ca?).map CapL3ca.numClasses

def l2caGetCosNum : Except Err Nat := (p.capGetType CapItem.l2ca?).map CapL2ca.numClasses

def mbaGetCosNum : Except Err Nat := (p.capGetType CapItem.mba?).map CapMba.numClasses

def l3caCdpEnabled : Except Err Bool := (p.capGetType CapItem.l3ca?).map CapL3ca.cdpOn

/-- The event's monitoring data, past the events the OS does not support. -/
def capGetEvent (event : MonEvent) : Except Err Monitor :=
  match p.capGetType CapItem.mon? with
  | .error e => .error e
  | .ok mon =>
    match mon.events.find? fun m =>
      m.type = event ∧ ¬ (p.interface = .os ∧ m.osSupport = false) with
    | some m => .ok m
    | none => .error .error

end Platform

/-- A class takes two registers with CDP on and one with it off, so switching it halves or doubles
the number of classes. -/
def CapL3ca.cdpChange (prev next : Bool) (c : CapL3ca) : CapL3ca :=
  if !prev && next then { c with cdpOn := true, numClasses := c.numClasses / 2 }
  else if prev && !next then { c with cdpOn := false, numClasses := c.numClasses * 2 % 2 ^ 32 }
  else c

/-- Switch CDP in the first L3 capability. -/
def capL3cdpChange (prev next : Bool) : Cap → Cap
  | [] => []
  | ⟨os, .l3ca c⟩ :: cap => ⟨os, .l3ca (c.cdpChange prev next)⟩ :: cap
  | c :: cap => c :: capL3cdpChange prev next cap

/-- The MBA capability that the registers of CPUID leaf 0x10.3 describe. Only a linear one will
do. -/
def discoverAllocMba (eax ecx edx : BitVec 32) : Except Err CapMba :=
  if ecx.getLsbD 2 then
    .ok {
      numClasses := (edx &&& 0xffff#32).toNat + 1
      throttleMax := (eax &&& 0xfff#32).toNat + 1
      throttleStep := (100 + 2 ^ 32 - ((eax &&& 0xfff#32).toNat + 1)) % 2 ^ 32
      isLinear := true }
  else .error .resource

/-! ## What the lookups find -/

namespace CpuInfo

variable {cpu : CpuInfo} {c : CoreInfo} {lcore : Nat}

theorem getCoreInfo_mem (h : cpu.getCoreInfo lcore = some c) : c ∈ cpu.cores ∧ c.lcore = lcore := by
  unfold getCoreInfo at h
  exact ⟨List.mem_of_find?_eq_some h, by simpa using List.find?_some h⟩

/-- Logical core ids are distinct, so a lookup finds the core it is given the id of. -/
theorem getCoreInfo_of_mem (h : c ∈ cpu.cores) : cpu.getCoreInfo c.lcore = some c := by
  obtain ⟨d, hd⟩ : ∃ d, cpu.getCoreInfo c.lcore = some d := by
    rw [← Option.isSome_iff_exists, getCoreInfo, List.find?_isSome]
    exact ⟨c, h, by simp⟩
  obtain ⟨hm, he⟩ := getCoreInfo_mem hd
  rw [hd, List.inj_on_of_nodup_map cpu.nodup hm h he]

theorem getCoreInfo_eq_none : cpu.getCoreInfo lcore = none ↔ lcore ∉ cpu.lcores := by
  simp [getCoreInfo, lcores]

theorem mem_lcores : lcore ∈ cpu.lcores ↔ ∃ c, cpu.getCoreInfo lcore = some c := by
  rw [← Option.isSome_iff_exists, Option.isSome_iff_ne_none, Ne, getCoreInfo_eq_none, not_not]

theorem getOneCore_ok {socket : Nat} (h : cpu.getOneCore socket = .ok lcore) :
    ∃ c ∈ cpu.cores, c.lcore = lcore ∧ c.socket = socket := by
  unfold getOneCore at h
  split at h
  · next c hc =>
    cases h
    exact ⟨c, List.mem_of_find?_eq_some hc, rfl, by simpa using List.find?_some hc⟩
  · cases h

theorem getOneCore_mem {socket : Nat} (h : cpu.getOneCore socket = .ok lcore) :
    lcore ∈ cpu.lcores := by
  obtain ⟨c, hc, rfl, -⟩ := getOneCore_ok h
  exact List.mem_map_of_mem hc

theorem getOneCore_of_mem (h : c ∈ cpu.cores) : ∃ lcore, cpu.getOneCore c.socket = .ok lcore := by
  unfold getOneCore
  split
  · exact ⟨_, rfl⟩
  · next hnone =>
    have := List.find?_eq_none.1 hnone c h
    simp at this

theorem getOneByL2id_ok {l2id : Nat} (h : cpu.getOneByL2id l2id = .ok lcore) :
    ∃ c ∈ cpu.cores, c.lcore = lcore ∧ c.l2Id = l2id := by
  unfold getOneByL2id at h
  split at h
  · next c hc =>
    cases h
    exact ⟨c, List.mem_of_find?_eq_some hc, rfl, by simpa using List.find?_some hc⟩
  · cases h

theorem checkCore_ok {u : Unit} : cpu.checkCore lcore = .ok u ↔ lcore ∈ cpu.lcores := by
  unfold checkCore
  rcases h : cpu.getCoreInfo lcore with _ | c
  · simp [getCoreInfo_eq_none.1 h]
  · simp [mem_lcores.2 ⟨c, h⟩]

theorem getClusterid_ok {cluster : Nat} :
    cpu.getClusterid lcore = .ok cluster
      ↔ ∃ c, cpu.getCoreInfo lcore = some c ∧ c.l3Id = cluster := by
  unfold getClusterid
  rcases cpu.getCoreInfo lcore with _ | c <;> simp

theorem mem_getCoresL3id {cluster : Nat} :
    lcore ∈ cpu.getCoresL3id cluster ↔ cpu.getClusterid lcore = .ok cluster := by
  rw [getClusterid_ok]
  simp only [getCoresL3id, getCoresPerTopologyObj, List.mem_map, List.mem_filter, decide_eq_true_eq]
  constructor
  · rintro ⟨c, ⟨hc, hid⟩, rfl⟩
    exact ⟨c, getCoreInfo_of_mem hc, hid⟩
  · rintro ⟨c, hc, hid⟩
    obtain ⟨hm, he⟩ := getCoreInfo_mem hc
    exact ⟨c, ⟨hm, hid⟩, he⟩

theorem getOneByL2id_mem {l2id : Nat} (h : cpu.getOneByL2id l2id = .ok lcore) :
    lcore ∈ cpu.lcores := by
  obtain ⟨c, hc, rfl, -⟩ := getOneByL2id_ok h
  exact List.mem_map_of_mem hc

end CpuInfo

theorem CpuInfo.ids_eq (cpu : CpuInfo) (id : CoreInfo → Nat) :
    cpu.ids id = (cpu.cores.map id).eraseDups := by
  have key : ∀ (cores : List CoreInfo) (pre : List Nat),
      cores.foldl (fun l c => if id c ∈ l then l else l ++ [id c]) pre.eraseDups
        = (pre ++ cores.map id).eraseDups := by
    intro cores
    induction cores with
    | nil => simp
    | cons c cores ih =>
      intro pre
      have hpush := Distinct.eraseDups_concat pre (id c)
      rw [Distinct.push] at hpush
      rw [List.foldl_cons, ← hpush, ih, List.map_cons, List.append_assoc, List.singleton_append]
  simpa [ids] using key cpu.cores []

theorem CpuInfo.mem_ids {cpu : CpuInfo} {id : CoreInfo → Nat} {x : Nat} :
    x ∈ cpu.ids id ↔ ∃ c ∈ cpu.cores, id c = x := by
  rw [ids_eq, List.mem_eraseDups, List.mem_map]

theorem capGetType_mem {p : Platform} {α : Type} {type : CapItem → Option α} {a : α}
    (h : p.capGetType type = .ok a) : ∃ c ∈ p.cap, type c.u = some a := by
  unfold Platform.capGetType at h
  split at h
  · next d hd =>
    cases h
    obtain ⟨c, hc, hsome⟩ := List.exists_of_findSome?_eq_some hd
    split_ifs at hsome
    exact ⟨c, hc, hsome⟩
  · cases h

section Counts

variable {p : Platform} {n : Nat}

theorem l3caGetCosNum_ok :
    p.l3caGetCosNum = .ok n ↔ ∃ c, p.capGetType CapItem.l3ca? = .ok c ∧ c.numClasses = n := by
  unfold Platform.l3caGetCosNum
  cases p.capGetType CapItem.l3ca? <;> simp [Except.map]

theorem l2caGetCosNum_ok :
    p.l2caGetCosNum = .ok n ↔ ∃ c, p.capGetType CapItem.l2ca? = .ok c ∧ c.numClasses = n := by
  unfold Platform.l2caGetCosNum
  cases p.capGetType CapItem.l2ca? <;> simp [Except.map]

theorem mbaGetCosNum_ok :
    p.mbaGetCosNum = .ok n ↔ ∃ c, p.capGetType CapItem.mba? = .ok c ∧ c.numClasses = n := by
  unfold Platform.mbaGetCosNum
  cases p.capGetType CapItem.mba? <;> simp [Except.map]

theorem l3caCdpEnabled_ok {b : Bool} :
    p.l3caCdpEnabled = .ok b ↔ ∃ c, p.capGetType CapItem.l3ca? = .ok c ∧ c.cdpOn = b := by
  unfold Platform.l3caCdpEnabled
  cases p.capGetType CapItem.l3ca? <;> simp [Except.map]

end Counts

end Pqos
