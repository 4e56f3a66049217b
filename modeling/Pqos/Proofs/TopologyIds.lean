import Pqos.Utils

/-!
# The ids of a topology

The lists of socket and of L2 ids are made in an array with room for one id of each core. A loop
over the cores looks through what is in it and stores an id that is not there. The invariant is that
after any number of cores the array has their ids in order of first appearance, so that there is
room for the next.
-/

namespace Pqos

open Distinct

/-! ## The loops -/

/-- The inner loop, over the entries that are set: it breaks at the first that is `x`. -/
def findId (x : Nat) : List Nat → Nat → Nat
  | [], j => j
  | y :: tab, j => if x = y then j else findId x tab (j + 1)

/-- A round of the outer loop. A store behind the end of the array is no result. -/
def addId (numCores : Nat) (tab : List Nat) (x : Nat) : Option (List Nat) :=
  let j := findId x tab 0
  if tab.length ≤ j ∨ tab.length = 0 then
    if tab.length < numCores then some (tab ++ [x]) else none
  else some tab

/-- The entries that are set at the end: as many of them as the count. -/
def topologyIds (id : CoreInfo → Nat) (cores : List CoreInfo) : Option (List Nat) :=
  (cores.map id).foldlM (addId cores.length) []

def pqosCpuGetSockets : List CoreInfo → Option (List Nat) := topologyIds CoreInfo.socket

def pqosCpuGetL2ids : List CoreInfo → Option (List Nat) := topologyIds CoreInfo.l2Id

/-! ## What they make -/

theorem findId_eq (x : Nat) (tab : List Nat) (j : Nat) : findId x tab j = j + tab.idxOf x := by
  induction tab generalizing j with
  | nil => rfl
  | cons y tab ih =>
    rw [findId]
    split_ifs with h
    · rw [h, List.idxOf_cons_self, Nat.add_zero]
    · rw [ih, List.idxOf_cons_ne tab (Ne.symm h)]
      omega

/-- With room in the array a round adds an id that is not there. -/
theorem addId_eq {numCores x : Nat} {tab : List Nat} (h : tab.length < numCores) :
    addId numCores tab x = some (push tab x) := by
  unfold addId push
  simp only [findId_eq, Nat.zero_add]
  by_cases hx : x ∈ tab
  · have hlt := List.idxOf_lt_length_of_mem hx
    rw [if_neg (by omega), if_pos hx]
  · rw [List.idxOf_of_notMem hx, if_pos (Or.inl (Nat.le_refl _)), if_pos h, if_neg hx]

/-- Before each core there are no more ids than cores were looked at. -/
theorem foldlM_addId {numCores : Nat} : ∀ {ids pre : List Nat}, pre.length + ids.length ≤ numCores →
    ids.foldlM (addId numCores) pre.eraseDups = some (pre ++ ids).eraseDups
  | [], pre, _ => by
    rw [List.append_nil]
    rfl
  | x :: ids, pre, h => by
    have hroom : pre.eraseDups.length < numCores := by
      have hle := (firstOf_eraseDups pre).length_le
      rw [List.length_cons] at h
      omega
    rw [List.length_cons] at h
    have hpre : (pre ++ [x]).length + ids.length ≤ numCores := by
      rw [List.length_append, List.length_singleton]
      omega
    rw [List.foldlM_cons, addId_eq hroom, ← eraseDups_concat, Option.bind_eq_bind, Option.bind_some,
      foldlM_addId hpre, List.append_assoc, List.singleton_append]

theorem topologyIds_eq (id : CoreInfo → Nat) (cores : List CoreInfo) :
    topologyIds id cores = some (cores.map id).eraseDups := by
  have hroom : ([] : List Nat).length + (cores.map id).length ≤ cores.length := by simp
  simpa [topologyIds] using foldlM_addId hroom

/-- What a list of ids is for. -/
structure IdsOf (cores : List CoreInfo) (id : CoreInfo → Nat) (ids : List Nat) : Prop where
  first : FirstOf (cores.map id) ids
  count : ids.length = (cores.map id).toFinset.card
  bound : ids.length ≤ cores.length

theorem idsOf_eraseDups (cores : List CoreInfo) (id : CoreInfo → Nat) :
    IdsOf cores id (cores.map id).eraseDups := by
  have hfirst := firstOf_eraseDups (cores.map id)
  exact ⟨hfirst, hfirst.length_eq, by simpa using hfirst.length_le⟩

/-- For every core table both functions store within their arrays and return the ids that occur. -/
theorem topologyIds_returned (cores : List CoreInfo) :
    (∃ sockets, pqosCpuGetSockets cores = some sockets ∧ IdsOf cores CoreInfo.socket sockets)
      ∧ ∃ l2ids, pqosCpuGetL2ids cores = some l2ids ∧ IdsOf cores CoreInfo.l2Id l2ids :=
  ⟨⟨_, topologyIds_eq _ _, idsOf_eraseDups _ _⟩, _, topologyIds_eq _ _, idsOf_eraseDups _ _⟩

/-! ## The lists the library looks ids up in -/

theorem CpuInfo.getSockets_eq (cpu : CpuInfo) :
    pqosCpuGetSockets cpu.cores = some cpu.getSockets := by
  rw [getSockets, ids_eq]
  exact topologyIds_eq _ _

theorem CpuInfo.getL2ids_eq (cpu : CpuInfo) : pqosCpuGetL2ids cpu.cores = some cpu.getL2ids := by
  rw [getL2ids, ids_eq]
  exact topologyIds_eq _ _

end Pqos
