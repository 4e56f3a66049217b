import Pqos.Types
import Mathlib.Data.List.Range

/-!
# Discovering the topology

Every processor the system is configured with is asked for its APIC id, which tells the socket and
the caches it belongs to. One that cannot be run on, as when it is offline, is left out, and the
others keep their numbers.
-/

namespace Pqos

/-- How an APIC id is divided into the ids of the socket, the L3 and the L2 cache. -/
structure ApicInfo where
  pkgMask : BitVec 32
  pkgShift : Nat
  l3Shift : Nat
  l2Shift : Nat

/-- The APIC id of each processor that the task can be moved to. -/
abbrev Affinity := Nat → Option (BitVec 32)

def detectCpu (apic : ApicInfo) (affinity : Affinity) (cpu : Nat) : Option CoreInfo :=
  (affinity cpu).map fun apicid => {
    lcore := cpu
    socket := ((apicid &&& apic.pkgMask) >>> apic.pkgShift).toNat
    l3Id := (apicid >>> apic.l3Shift).toNat
    l2Id := (apicid >>> apic.l2Shift).toNat }

def detectedCores (apic : ApicInfo) (affinity : Affinity) (maxCoreCount : Nat) : List CoreInfo :=
  (List.range maxCoreCount).filterMap (detectCpu apic affinity)

/-- The cores found are those of the processors that could be asked, in their order. -/
theorem detectedCores_lcores (apic : ApicInfo) (affinity : Affinity) (maxCoreCount : Nat) :
    (detectedCores apic affinity maxCoreCount).map CoreInfo.lcore
      = (List.range maxCoreCount).filter fun cpu => (affinity cpu).isSome := by
  have hone : ∀ cpu, (detectCpu apic affinity cpu).map CoreInfo.lcore
      = Option.guard (fun cpu => (affinity cpu).isSome) cpu := by
    intro cpu
    unfold detectCpu
    cases h : affinity cpu <;> simp [Option.guard, h]
  rw [detectedCores, List.map_filterMap, ← List.filterMap_eq_filter]
  exact List.filterMap_congr fun cpu _ => hone cpu

theorem detectedCores_nodup (apic : ApicInfo) (affinity : Affinity) (maxCoreCount : Nat) :
    ((detectedCores apic affinity maxCoreCount).map CoreInfo.lcore).Nodup := by
  rw [detectedCores_lcores]
  exact List.nodup_range.filter _

/-- No topology comes of a system in which no processor can be asked. -/
def cpuinfoBuildTopo (apic : ApicInfo) (affinity : Affinity) (maxCoreCount : Nat) :
    Option CpuInfo :=
  if h : detectedCores apic affinity maxCoreCount = [] then none
  else some ⟨detectedCores apic affinity maxCoreCount, detectedCores_nodup _ _ _, h⟩

end Pqos
