import Pqos.Discovery
import Pqos.Proofs.Rmid

/-!
# RMIDs wider than their field

The processor says how many RMIDs it has, and the field of the association register has ten bits.
From RMID 1024 on what is written is not what is read back. The allocator starts at the highest RMID
and takes it for free when no core reads it, so with a wider RMID than the field it hands out one
and the same to every group.
-/

namespace Pqos

open Prog

/-! ## The number of RMIDs that was discovered -/

/-- What CPUID reports for a set of events: the RMIDs of the socket, and no more than those of the
cache's and the memory's events. -/
def rmidCount (hw : Chip) (event : MonEvent) : Nat :=
  if event = 0 then onePlus (hw.lcpuid 0xf 0).ebx
  else min (onePlus (hw.lcpuid 0xf 0).ebx) (onePlus (hw.lcpuid 0xf 1).ecx)

theorem discoverMonitoring_ok {hw : Chip} {mon : CapMon} (h : discoverMonitoring hw = .ok mon) :
    mon.maxRmid = onePlus (hw.lcpuid 0xf 0).ebx
      ∧ ∀ m ∈ mon.events, m.maxRmid = onePlus (hw.lcpuid 0xf 1).ecx ∨ m.maxRmid = 0 := by
  unfold discoverMonitoring at h
  split_ifs at h
  cases h
  refine ⟨rfl, fun m hm => ?_⟩
  rcases List.mem_append.1 hm with hm | hm
  · left
    unfold l3EventsOf at hm
    simp only [List.mem_append, List.mem_ite_nil_right, List.mem_singleton] at hm
    obtain ((⟨-, rfl⟩ | ⟨-, rfl⟩) | ⟨-, rfl⟩) | ⟨-, rfl⟩ := hm <;> rfl
  · right
    unfold perfEventsOf at hm
    simp only [List.mem_append, List.mem_ite_nil_right, List.mem_singleton] at hm
    obtain ⟨-, rfl⟩ | ⟨-, rfl⟩ := hm <;> rfl

/-- With one limit for all events but those that have none, the number found is the socket's, the
lower of the two, or 0. -/
theorem eventsFound_cases {mon : CapMon} {limit : Nat} (event : MonEvent)
    (hlimit : ∀ m ∈ mon.events, m.maxRmid = limit ∨ m.maxRmid = 0) :
    (eventsFound mon event).2 = 0
      ∨ (eventsFound mon event).1 = 0 ∧ (eventsFound mon event).2 = mon.maxRmid
      ∨ (eventsFound mon event).1 ≠ 0 ∧ (eventsFound mon event).2 = min mon.maxRmid limit := by
  unfold eventsFound
  refine List.foldlRecOn (motive := fun found : MonEvent × Nat =>
    found.2 = 0 ∨ found.1 = 0 ∧ found.2 = mon.maxRmid
      ∨ found.1 ≠ 0 ∧ found.2 = min mon.maxRmid limit) mon.events _ (Or.inr (Or.inl ⟨rfl, rfl⟩))
    fun found hfound m hm => ?_
  dsimp only
  split_ifs with hhit hlow
  · exact hfound
  all_goals
    -- an event that is asked for has a bit, and so has the mask from here on
    have hmask : found.1 ||| m.type ≠ 0 := fun hzero => by
      rw [(BitVec.or_eq_zero_iff.1 hzero).2] at hhit
      exact hhit BitVec.and_zero
    have hm' := hlimit m hm
    simp only [hmask, ne_eq, not_false_eq_true, false_and, true_and, false_or]
    omega

/-! ## An RMID for a core -/

variable (p : Platform)

/-- Take an RMID of the cluster for a core and read it back. -/
def giveRmid (cluster : Nat) (event : MonEvent) (core : Nat) : EStateM Err Msr (Nat × Nat) := do
  let rmid ← rmidAlloc p cluster event
  monAssocSet p core rmid
  let read ← monAssocGet p core
  return (rmid, read)

variable {p} {hw : Chip} {mon : CapMon} {cluster core r c : Nat} {event : MonEvent} {s t : Msr}

theorem Msr.rmid_lt (s : Msr) (lcore : Nat) : s.rmid lcore < 1024 := by
  unfold Msr.rmid rmidOf
  rw [BitVec.toNat_and]
  exact Nat.lt_of_le_of_lt Nat.and_le_right (by decide)

/-- No core reads an RMID beyond the field, so the highest one is always free there. -/
theorem findFree_wide {used : List Nat} {n : Nat} (hused : ∀ u ∈ used, u < 1024) (hn : 1024 < n) :
    findFree used n = some (n - 1) := by
  obtain ⟨m, rfl⟩ := Nat.exists_eq_add_of_lt hn
  rw [findFree, if_neg]
  · rfl
  · intro hmem
    have := hused _ hmem
    omega

theorem giveRmid_ok (h : (giveRmid p cluster event core).run s = .ok (r, c) t) :
    (∃ u, (rmidAlloc p cluster event).run s = .ok r u) ∧ c = r % 1024
      ∧ ∀ k, t.rmid k = if k = core then r % 1024 else s.rmid k := by
  unfold giveRmid at h
  simp only [bind_ok] at h
  obtain ⟨rmid, u, halloc, _, v, hset, read, w, hget, h⟩ := h
  cases h
  obtain ⟨hread, hmem⟩ := monAssocGet_ok hget
  have hset' := monAssocSet_rmid_mod hset
  refine ⟨⟨u, halloc⟩, ?_, fun k => ?_⟩
  · rw [hread, hset', if_pos rfl]
  · rw [Msr.rmid_of_mem hmem, hset', Msr.rmid_of_mem (rmidAlloc_findFree halloc).1]

/-- An RMID is below the number that was discovered, it is that of no core of the cluster, and it is
the highest where that is beyond the field. -/
theorem giveRmid_rmid (hmon : discoverMonitoring hw = .ok mon)
    (hcap : p.capGetType CapItem.mon? = .ok mon)
    (h : (giveRmid p cluster event core).run s = .ok (r, c) t) :
    r < rmidCount hw event ∧ (∀ k, p.cpu.getClusterid k = .ok cluster → s.rmid k ≠ r)
      ∧ (1024 < rmidCount hw event → r = rmidCount hw event - 1) := by
  obtain ⟨⟨u, halloc⟩, -, -⟩ := giveRmid_ok h
  obtain ⟨-, mon', hcap', hevent, hne, hfind⟩ := rmidAlloc_findFree halloc
  obtain rfl : mon = mon' := Except.ok.inj (hcap.symm.trans hcap')
  obtain ⟨hmax, hlimit⟩ := discoverMonitoring_ok hmon
  have hcount : (eventsFound mon event).2 = rmidCount hw event := by
    unfold rmidCount
    rcases eventsFound_cases event hlimit with h0 | ⟨hmask, h⟩ | ⟨hmask, h⟩
    · exact absurd h0 hne
    · rw [if_pos (hevent.trans hmask), h, hmax]
    · rw [if_neg (hevent ▸ hmask), h, hmax]
  rw [hcount] at hfind
  obtain ⟨hlt, hfree⟩ := findFree_ok hfind
  refine ⟨hlt, fun k hk hkr => hfree (List.mem_map.2 ⟨k, CpuInfo.mem_getCoresL3id.2 hk, hkr⟩), ?_⟩
  intro hwide
  rw [findFree_wide (fun u hu => ?_) hwide, Option.some.injEq] at hfind
  · exact hfind.symm
  · obtain ⟨k, -, rfl⟩ := List.mem_map.1 hu
    exact s.rmid_lt k

/-- An RMID is read back as it was given if and only if the processor has no more of them than the
field holds. Of two cores of a cluster that are given one after the other, each for a group of its
own, both read theirs back and the two differ if and only if that is so for the events of both. -/
theorem rmidWidth_iff (hmon : discoverMonitoring hw = .ok mon)
    (hcap : p.capGetType CapItem.mon? = .ok mon) (hcore : p.cpu.getClusterid core = .ok cluster)
    (h : (giveRmid p cluster event core).run s = .ok (r, c) t) :
    (c = r ↔ rmidCount hw event ≤ 1024)
      ∧ ∀ (core' r' c' : Nat) (event' : MonEvent) (s' t' : Msr), core' ≠ core →
        s'.rmid core = t.rmid core → (giveRmid p cluster event' core').run s' = .ok (r', c') t' →
          ((c = r ∧ c' = r' ∧ t'.rmid core ≠ t'.rmid core')
            ↔ rmidCount hw event ≤ 1024 ∧ rmidCount hw event' ≤ 1024) := by
  have hone : ∀ {event : MonEvent} {core r c : Nat} {s t : Msr},
      (giveRmid p cluster event core).run s = .ok (r, c) t →
        (c = r ↔ rmidCount hw event ≤ 1024) := by
    intro event core r c s t h
    obtain ⟨hlt, -, hwide⟩ := giveRmid_rmid hmon hcap h
    rw [(giveRmid_ok h).2.1]
    constructor
    · intro hread
      by_contra hover
      have hr := hwide (by omega)
      have := Nat.mod_lt r (by decide : 0 < 1024)
      omega
    · exact fun hfit => Nat.mod_eq_of_lt (by omega)
  refine ⟨hone h, fun core' r' c' event' s' t' hne hkept h' => ?_⟩
  rw [← hone h, ← hone h']
  refine ⟨fun hboth => ⟨hboth.1, hboth.2.1⟩, fun ⟨hread, hread'⟩ => ⟨hread, hread', ?_⟩⟩
  obtain ⟨-, hc, hregs⟩ := giveRmid_ok h
  obtain ⟨-, hc', hregs'⟩ := giveRmid_ok h'
  have hother : s'.rmid core ≠ r' := (giveRmid_rmid hmon hcap h').2.1 core hcore
  rw [hregs', hregs', if_neg hne.symm, if_pos rfl, ← hc', hread']
  exact hother

/-- A processor with one more RMID than it says, for the socket and for L3 occupancy. -/
def rmidChip (highest : BitVec 32) : Chip where
  lcpuid
    | 0x7, 0 => ⟨0, 0x1000, 0, 0⟩
    | 0xf, 0 => ⟨0, highest, 0, 2⟩
    | 0xf, 1 => ⟨0, 65536, highest, 1⟩
    | _, _ => ⟨0, 0, 0, 0⟩
  l3 := ⟨true, 16⟩
  l2 := ⟨true, 8⟩

def rmidMon (highest : BitVec 32) : CapMon :=
  ⟨onePlus highest, [⟨monEventL3Occup, onePlus highest, false, 65536⟩]⟩

def rmidPlatform (highest : BitVec 32) : Platform := smallPlatform [⟨false, .mon (rmidMon highest)⟩]

/-- With four RMIDs the second core is given another than the first. -/
theorem rmidWidth_iff_four :
    ∃ t t', (giveRmid (rmidPlatform 3) 0 monEventL3Occup 0).run idleState.msr = .ok (3, 3) t
      ∧ (giveRmid (rmidPlatform 3) 0 monEventL3Occup 1).run t = .ok (2, 2) t'
      ∧ t'.rmid 0 ≠ t'.rmid 1 := by
  have hmon : discoverMonitoring (rmidChip 3) = .ok (rmidMon 3) := by decide
  have hcap : (rmidPlatform 3).capGetType CapItem.mon? = .ok (rmidMon 3) := rfl
  have h : (giveRmid (rmidPlatform 3) 0 monEventL3Occup 0).run idleState.msr
    = .ok (3, 3) (final ((giveRmid (rmidPlatform 3) 0 monEventL3Occup 0).run idleState.msr)) := rfl
  have hall := (rmidWidth_iff hmon hcap rfl h).2 1 2 2 monEventL3Occup _ _ (by decide) rfl rfl
  exact ⟨_, _, h, rfl, (hall.2 ⟨by decide, by decide⟩).2.2⟩

/-- With 2048 of them the first core reads 1023 where 2047 was written, and two groups that are
started on the cluster have one RMID. -/
theorem rmidWidth_shared :
    discoverMonitoring (rmidChip 2047) = .ok (rmidMon 2047)
      ∧ (rmidPlatform 2047).capGetType CapItem.mon? = .ok (rmidMon 2047)
      ∧ value ((giveRmid (rmidPlatform 2047) 0 monEventL3Occup 0).run idleState.msr)
        = some (2047, 1023)
      ∧ ∃ σ, σ = monRun (rmidPlatform 2047)
          [.start [0] monEventL3Occup 0, .start [1] monEventL3Occup 1] idleState
        ∧ (σ.groups 0).Active ∧ (σ.groups 1).Active ∧ σ.msr.rmid 0 = σ.msr.rmid 1 := by
  exact ⟨by decide, rfl, by decide, _, rfl, by decide, by decide, by decide⟩

end Pqos
