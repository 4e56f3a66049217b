import Pqos.Cpuinfo
import Pqos.Discovery
import Pqos.Lib.While

/-!
# What an APIC id is made of

Leaf 0xb of CPUID tells how many low bits of an APIC id number the processors of a core and of a
socket, and leaf 4 how many processors share each cache. Both are read one subleaf after another
until one is not valid. A subleaf is a number of 32 bits: once all of them are read the first one is
read again, so a loop that is not left by then is never left.
-/

namespace Pqos

open While

/-- The registers of each CPUID leaf and subleaf. -/
abbrev Cpuid := Nat → Nat → CpuidOut

deriving instance DecidableEq for ApicInfo

/-- How the detection ends without a result: with its return value, or not at all. -/
inductive ApicErr
  | coreMasks
  | cacheMasks
  | hang
deriving DecidableEq, Repr

/-! ## Cores and sockets -/

/-- What the loop over leaf 0xb has found: the shift of each level that was reported. -/
structure CoreScan where
  subleaf : Nat
  smtSize : Option Nat
  pkgShift : Option Nat

def moreLevels (hw : Cpuid) (s : CoreScan) : Bool := (hw 0xb (s.subleaf % 2 ^ 32)).ebx ≠ 0

def scanLevel (hw : Cpuid) (s : CoreScan) : CoreScan :=
  let leafB := hw 0xb (s.subleaf % 2 ^ 32)
  let levelType := ((leafB.ecx >>> 8) &&& 0xff#32).toNat
  let levelShift := (leafB.eax &&& 0x1f#32).toNat
  { subleaf := s.subleaf + 1
    smtSize := if levelType = 1 then some levelShift else s.smtSize
    pkgShift := if levelType = 2 then some levelShift else s.pkgShift }

/-- The mask and the shift of the socket in an APIC id. Where no core level is reported, a core is
a socket. -/
def detectApicCoreMasks (hw : Cpuid) : Except ApicErr (BitVec 32 × Nat) :=
  match run (moreLevels hw) (scanLevel hw) (2 ^ 32) ⟨0, none, none⟩ with
  | none => .error .hang
  | some s =>
    match s.smtSize with
    | none => .error .coreMasks
    | some smtSize =>
      let shift := s.pkgShift.getD smtSize
      .ok (BitVec.allOnes 32 <<< shift, shift)

/-! ## Caches -/

/-- The loop with `r` and `p`. A power of two is shifted out of its 32 bits in no more than so many
rounds. -/
def nearestPow2From (n : Nat) : Nat → BitVec 32 → Nat → Nat
  | 0, _, p => p
  | rounds + 1, r, p =>
    if r = 0 ∨ n ≤ r.toNat then p else nearestPow2From n rounds (r <<< 1) (p + 1)

def nearestPow2 (n : Nat) : Nat := if n < 2 then n else nearestPow2From n 32 1#32 0

def cacheType (leaf4 : CpuidOut) : Nat := (leaf4.eax &&& 0x1f#32).toNat

def cacheLevel (leaf4 : CpuidOut) : Nat := ((leaf4.eax >>> 5) &&& 0x7#32).toNat

/-- How many APIC ids there are for the processors that share the cache. -/
def cacheSharing (leaf4 : CpuidOut) : Nat := ((leaf4.eax >>> 14) &&& 0xfff#32).toNat + 1

/-- What the loop over leaf 4 has found. A level whose shift is 0 was not detected. -/
structure CacheScan where
  subleaf : Nat
  cacheLevelShift : Nat → Nat
  l2 : CacheInfo
  l3 : CacheInfo

/-- The subleaf that the loop reads in a round. -/
def leaf4 (hw : Cpuid) (round : Nat) : CpuidOut := hw 0x4 (round % 2 ^ 32)

/-- There are no more caches at the first type that is 0 or reserved. -/
def moreCaches (hw : Cpuid) (round : Nat) : Bool :=
  ¬ (cacheType (leaf4 hw round) = 0 ∨ 4 ≤ cacheType (leaf4 hw round))

def scanCache (hw : Cpuid) (s : CacheScan) : CacheScan :=
  let leaf4 := leaf4 hw s.subleaf
  let level := cacheLevel leaf4
  let shift := nearestPow2 (cacheSharing leaf4)
  let ci : CacheInfo := ⟨true, onePlus (leaf4.ebx >>> 22)⟩
  { subleaf := s.subleaf + 1
    cacheLevelShift :=
      if level < 4 then Function.update s.cacheLevelShift level shift else s.cacheLevelShift
    l2 := if level = 2 then ci else s.l2
    l3 := if level = 3 then ci else s.l3 }

def noCaches : CacheScan := ⟨0, fun _ => 0, ⟨false, 0⟩, ⟨false, 0⟩⟩

def cacheScan (hw : Cpuid) : Option CacheScan :=
  run (fun s => moreCaches hw s.subleaf) (scanCache hw) (2 ^ 32) noCaches

/-! ## Both -/

/-- The structure of an APIC id, and the L2 and the L3 cache. -/
def detectApicMasks (hw : Cpuid) : Except ApicErr (ApicInfo × CacheInfo × CacheInfo) :=
  match detectApicCoreMasks hw with
  | .error e => .error e
  | .ok (pkgMask, pkgShift) =>
    match cacheScan hw with
    | none => .error .hang
    | some s =>
      if s.cacheLevelShift 2 = 0 ∨ s.cacheLevelShift 1 = 0 then .error .cacheMasks
      else
        .ok ({
          pkgMask, pkgShift
          l3Shift := if s.cacheLevelShift 3 = 0 then pkgShift else s.cacheLevelShift 3
          l2Shift := s.cacheLevelShift 2 }, s.l2, s.l3)

end Pqos
