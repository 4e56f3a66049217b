import Pqos.OsMonitoring
import Pqos.Proofs.Poll
import Mathlib.Algebra.BigOperators.Intervals
import Mathlib.Data.BitVec

/-!
# What a poll reports on the OS interface

A poll stores the sum of an event's counters and by how much it is above the sum stored before. A
sum that fell is taken for one that wrapped, and its delta comes out one too small.
-/

namespace Pqos

open Prog

theorem osGetDelta_eq_iff (oldValue newValue : Word) :
    osGetDelta oldValue newValue = newValue - oldValue ↔ oldValue ≤ newValue := by
  unfold osGetDelta
  split_ifs with h
  · refine iff_of_false (fun heq => ?_) (BitVec.not_le.2 h)
    have hmax : (BitVec.allOnes 64).toNat = 2 ^ 64 - 1 := by decide
    rw [BitVec.lt_def] at h
    rw [← BitVec.toNat_inj, BitVec.toNat_add, BitVec.toNat_sub, BitVec.toNat_sub, hmax] at heq
    omega
  · exact iff_of_true rfl (BitVec.not_lt.1 h)

/-! ## What a poll reads -/

/-- The counters of which a poll reports a delta. -/
inductive OsDelta
  | local | total | retired | unhalted | llcMisses
deriving DecidableEq

namespace OsDelta

def ctr : OsDelta → PerfCtr
  | .local => .mbl
  | .total => .mbt
  | .retired => .inst
  | .unhalted => .cyc
  | .llcMisses => .llcMisses

def value : OsDelta → EventValues → Word
  | .local => EventValues.mbmLocal
  | .total => EventValues.mbmTotal
  | .retired => EventValues.ipcRetired
  | .unhalted => EventValues.ipcUnhalted
  | .llcMisses => EventValues.llcMisses

def delta : OsDelta → EventValues → Word
  | .local => EventValues.mbmLocalDelta
  | .total => EventValues.mbmTotalDelta
  | .retired => EventValues.ipcRetiredDelta
  | .unhalted => EventValues.ipcUnhaltedDelta
  | .llcMisses => EventValues.llcMissesDelta

end OsDelta

section Readings

variable {σ : Type} (hw : CounterHw σ) (g : OsGroup) (fds : PerfCtr → List Nat)

def perfReading (mask : MonEvent) (ctr : PerfCtr) : EStateM Err σ (Option Word) :=
  readIf g.event mask (mapError (fun _ => .error) (readPerfCounters hw g fds ctr))

/-- The sums that a poll reads, one for each counter that the group's events need. -/
def perfReadings : EStateM Err σ (PerfCtr → Option Word) := do
  let llc ← perfReading hw g fds monEventL3Occup .llc
  let mbl ← perfReading hw g fds (monEventLmemBw ||| monEventRmemBw) .mbl
  let mbt ← perfReading hw g fds (monEventTmemBw ||| monEventRmemBw) .mbt
  let inst ← perfReading hw g fds (perfEventInstructions ||| perfEventIpc) .inst
  let cyc ← perfReading hw g fds (perfEventCycles ||| perfEventIpc) .cyc
  let llcMisses ← perfReading hw g fds perfEventLlcMiss .llcMisses
  return fun
    | .llc => llc
    | .mbl => mbl
    | .mbt => mbt
    | .inst => inst
    | .cyc => cyc
    | .llcMisses => llcMisses

end Readings

section Step

variable {σ : Type} {hw : CounterHw σ} {scale : Word → Word} {g : OsGroup}
  {fds : PerfCtr → List Nat} {s t : Polled σ} {u : Unit} {k : OsDelta}

/-- The last sum and its delta. -/
def OsDelta.report (k : OsDelta) (pv : EventValues) : Word × Word := (k.value pv, k.delta pv)

/-- The report after a sum was read. -/
def OsDelta.next (k : OsDelta) (sum : Option Word) (pv : EventValues) : Word × Word :=
  sum.elim (k.report pv) fun w => (w, osGetDelta (k.value pv) w)

/-- The block of a counter makes the next report of that counter, and leaves the others'. -/
theorem pollCtr_report {mask : MonEvent} {ctr : PerfCtr} {store : Word → EventValues → EventValues}
    (h : (pollCtr hw g fds mask ctr store).run s = .ok u t)
    (hstore : ∀ w pv, k.report (store w pv)
      = if k.ctr = ctr then (w, osGetDelta (k.value pv) w) else k.report pv) :
    ∃ r, (perfReading hw g fds mask ctr).run s.hw = .ok r t.hw
      ∧ k.report t.group.values = k.next (if k.ctr = ctr then r else none) s.group.values := by
  obtain ⟨r, h', hread, rfl⟩ := pollEvent_ok.1 h
  refine ⟨r, hread, ?_⟩
  cases r with
  | none =>
    rw [ite_self]
    rfl
  | some w =>
    refine (hstore w s.group.values).trans ?_
    split_ifs <;> rfl

theorem OsDelta.next_congr {pv pv' : EventValues} (h : k.report pv = k.report pv')
    (sum : Option Word) : k.next sum pv = k.next sum pv' := by
  unfold OsDelta.next
  rw [h, (Prod.mk.inj h).1]

/-- A block that reads no counter leaves the machine alone, and the reports. -/
theorem pollEvent_report {mask : MonEvent} {store : Unit → EventValues → EventValues}
    (h : (pollEvent g.event mask (fun _ => pure ()) store).run s = .ok u t)
    (hstore : ∀ a pv, k.report (store a pv) = k.report pv) :
    t.hw = s.hw ∧ k.report t.group.values = k.report s.group.values := by
  obtain ⟨r, h', hread, rfl⟩ := pollEvent_ok.1 h
  refine ⟨readIf_pure hread, ?_⟩
  cases r with
  | none => rfl
  | some a => exact hstore a s.group.values

/-- A poll that succeeds reports of every counter the sum it read and its delta. -/
theorem pollPerfCounters_report {sums : PerfCtr → Option Word}
    (h : (pollPerfCounters hw scale g fds).run s = .ok u t)
    (hsums : value ((perfReadings hw g fds).run s.hw) = some sums) (k : OsDelta) :
    k.report t.group.values = k.next (sums k.ctr) s.group.values := by
  unfold pollPerfCounters at h
  simp only [bind_ok] at h
  obtain ⟨_, s₁, h₁, _, s₂, h₂, _, s₃, h₃, _, s₄, h₄, _, s₅, h₅, _, s₆, h₆, _, s₇, h₇, h₈⟩ := h
  obtain ⟨llc, hllc, r₁⟩ := pollCtr_report (k := k) h₁ fun _ _ => by cases k <;> rfl
  obtain ⟨mbl, hmbl, r₂⟩ := pollCtr_report (k := k) h₂ fun _ _ => by cases k <;> rfl
  obtain ⟨mbt, hmbt, r₃⟩ := pollCtr_report (k := k) h₃ fun _ _ => by cases k <;> rfl
  obtain ⟨hw₄, r₄⟩ := pollEvent_report (k := k) h₄ fun _ _ => by cases k <;> rfl
  obtain ⟨inst, hinst, r₅⟩ := pollCtr_report (k := k) h₅ fun _ _ => by cases k <;> rfl
  obtain ⟨cyc, hcyc, r₆⟩ := pollCtr_report (k := k) h₆ fun _ _ => by cases k <;> rfl
  obtain ⟨hw₇, r₇⟩ := pollEvent_report (k := k) h₇ fun _ _ => by cases k <;> rfl
  obtain ⟨misses, hmisses, r₈⟩ := pollCtr_report (k := k) h₈ fun _ _ => by cases k <;> rfl
  rw [hw₄] at hinst
  rw [hw₇] at hmisses
  unfold perfReadings at hsums
  rw [bind_of_ok hllc, bind_of_ok hmbl, bind_of_ok hmbt, bind_of_ok hinst, bind_of_ok hcyc,
    bind_of_ok hmisses] at hsums
  cases hsums
  -- the counter's own block makes its report, and those before and after it leave it alone
  cases k with
  | «local» =>
    exact r₈.trans (r₇.trans (r₆.trans (r₅.trans (r₄.trans (r₃.trans
      (r₂.trans (OsDelta.next_congr r₁ _)))))))
  | total =>
    exact r₈.trans (r₇.trans (r₆.trans (r₅.trans (r₄.trans
      (r₃.trans (OsDelta.next_congr (r₂.trans r₁) _))))))
  | retired =>
    exact r₈.trans (r₇.trans (r₆.trans
      (r₅.trans (OsDelta.next_congr (r₄.trans (r₃.trans (r₂.trans r₁))) _))))
  | unhalted =>
    exact r₈.trans (r₇.trans
      (r₆.trans (OsDelta.next_congr (r₅.trans (r₄.trans (r₃.trans (r₂.trans r₁)))) _)))
  | llcMisses =>
    exact r₈.trans (OsDelta.next_congr
      (r₇.trans (r₆.trans (r₅.trans (r₄.trans (r₃.trans (r₂.trans r₁)))))) _)

end Step

/-! ## A run -/

section Run

variable {σ : Type} (hw : CounterHw σ) (scale : Word → Word) (g : OsGroup)
  (fds : PerfCtr → List Nat)

/-- The values of a group after polls, each of which finds the machine as `h` says. -/
def osPolls (h : Nat → σ) (v : PollValues) : Nat → PollValues
  | 0 => v
  | n + 1 => (final ((pollPerfCounters hw scale g fds).run ⟨h n, osPolls h v n⟩)).group

/-- Polls that succeed and read a counter, whose sum is `sums n` in poll `n`. -/
structure OsRun (k : OsDelta) (h : Nat → σ) (v : PollValues) (sums : Nat → Word) (m : Nat) :
    Prop where
  poll : ∀ n < m, value ((pollPerfCounters hw scale g fds).run ⟨h n, osPolls hw scale g fds h v n⟩)
    = some ()
  reads : ∀ n < m, (value ((perfReadings hw g fds).run (h n))).bind (· k.ctr) = some (sums n)

/-- What stands after polls: the initial value, then what they read. -/
def standing (initial : Word) (sums : Nat → Word) : Nat → Word
  | 0 => initial
  | n + 1 => sums n

variable {hw scale g fds} {k : OsDelta} {h : Nat → σ} {v : PollValues} {sums : Nat → Word}
  {m n : Nat}

theorem OsRun.step (hrun : OsRun hw scale g fds k h v sums m) (hn : n < m) :
    k.report (osPolls hw scale g fds h v (n + 1)).values
      = (sums n, osGetDelta (k.value (osPolls hw scale g fds h v n).values) (sums n)) := by
  obtain ⟨t, ht⟩ := value_eq_some.1 (hrun.poll n hn)
  obtain ⟨all, hall, hsum⟩ := Option.bind_eq_some_iff.1 (hrun.reads n hn)
  have hreport := pollPerfCounters_report ht hall k
  rw [hsum] at hreport
  rwa [osPolls, ht]

theorem OsRun.value (hrun : OsRun hw scale g fds k h v sums m) (hn : n ≤ m) :
    k.value (osPolls hw scale g fds h v n).values = standing (k.value v.values) sums n := by
  cases n with
  | zero => rfl
  | succ n => exact congrArg Prod.fst (hrun.step hn)

theorem OsRun.delta (hrun : OsRun hw scale g fds k h v sums m) (hn : n < m) :
    k.delta (osPolls hw scale g fds h v (n + 1)).values
      = osGetDelta (standing (k.value v.values) sums n)
        (standing (k.value v.values) sums (n + 1)) := by
  rw [← hrun.value (Nat.le_of_lt hn)]
  exact congrArg Prod.snd (hrun.step hn)

/-- The deltas of a run are the differences between what was read, and add up to what the counters
advanced by, if and only if no sum fell. -/
theorem osPolls_delta_iff (hrun : OsRun hw scale g fds k h v sums m) :
    ((∀ n < m, k.delta (osPolls hw scale g fds h v (n + 1)).values
          = standing (k.value v.values) sums (n + 1) - standing (k.value v.values) sums n)
        ∧ ∑ n ∈ Finset.range m, k.delta (osPolls hw scale g fds h v (n + 1)).values
          = standing (k.value v.values) sums m - k.value v.values)
      ↔ ∀ n < m, standing (k.value v.values) sums n ≤ standing (k.value v.values) sums (n + 1) := by
  have hdelta : (∀ n < m, k.delta (osPolls hw scale g fds h v (n + 1)).values
        = standing (k.value v.values) sums (n + 1) - standing (k.value v.values) sums n)
      ↔ ∀ n < m, standing (k.value v.values) sums n
        ≤ standing (k.value v.values) sums (n + 1) := by
    refine forall₂_congr fun n hn => ?_
    rw [hrun.delta hn, osGetDelta_eq_iff]
  refine ⟨fun hall => hdelta.1 hall.1, fun hrise => ⟨hdelta.2 hrise, ?_⟩⟩
  calc ∑ n ∈ Finset.range m, k.delta (osPolls hw scale g fds h v (n + 1)).values
      = ∑ n ∈ Finset.range m, (standing (k.value v.values) sums (n + 1)
          - standing (k.value v.values) sums n) :=
        Finset.sum_congr rfl fun n hn => hdelta.2 hrise n (Finset.mem_range.1 hn)
    _ = standing (k.value v.values) sums m - k.value v.values := Finset.sum_range_sub _ _

end Run

/-! ## A machine -/

/-- Every descriptor reads what the machine is. -/
def countHw : CounterHw Word :=
  ⟨fun _ _ => throw (), fun _ _ _ => throw (), fun _ => get, fun _ => 0⟩

def localGroup : OsGroup := ⟨monEventLmemBw, [0], []⟩

def localFds : PerfCtr → List Nat
  | .mbl => [3]
  | _ => []

/-- Any sequence of sums is one that polls read. -/
theorem count_run (sums : Nat → Word) (m : Nat) :
    OsRun countHw id localGroup localFds .local sums startValues sums m := by
  refine ⟨fun n _ => ?_, fun n _ => ?_⟩
  · generalize osPolls countHw id localGroup localFds sums startValues n = v
    rfl
  · have hreads : (value ((perfReadings countHw localGroup localFds).run (sums n))).bind
        (· OsDelta.local.ctr) = some (sums n + 0) := rfl
    rw [hreads, add_zero]

/-- Readings that rise. -/
def rising (n : Nat) : Word := if n = 0 then 5 else 9

/-- A reading that falls. -/
def falling (n : Nat) : Word := if n = 0 then 5 else 3

theorem osPolls_delta_iff_rising :
    ((∀ n < 2,
      OsDelta.local.delta (osPolls countHw id localGroup localFds rising startValues (n + 1)).values
          = standing 0 rising (n + 1) - standing 0 rising n)
        ∧ ∑ n ∈ Finset.range 2, OsDelta.local.delta
            (osPolls countHw id localGroup localFds rising startValues (n + 1)).values
          = standing 0 rising 2 - 0)
      ↔ ∀ n < 2, standing 0 rising n ≤ standing 0 rising (n + 1) :=
  osPolls_delta_iff (v := startValues) (count_run rising 2)

theorem osPolls_delta_falling :
    ∃ h sums, OsRun countHw id localGroup localFds .local h startValues sums 2
      ∧ OsDelta.local.delta (osPolls countHw id localGroup localFds h startValues 2).values
        ≠ sums 1 - sums 0 :=
  ⟨falling, falling, count_run falling 2, by decide⟩

end Pqos
