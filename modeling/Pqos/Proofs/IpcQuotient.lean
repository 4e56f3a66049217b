import Pqos.Proofs.OsPoll

/-!
# The divisor of the quotient

Both interfaces divide the instructions that a poll counted by the cycles that it counted. The MSR
interface asks whether there were any. The OS interface asks whether the count of cycles is 0
instead, and divides by 0 when a poll reads the count that an earlier one read.
-/

namespace Pqos

open Prog

/-- What the last quotient was divided by, where there is one. -/
def PollValues.divisor (v : PollValues) : Option Word := v.values.ipc.map Prod.snd

/-! ## The MSR interface -/

section Msr

variable {σ : Type} {hw : CounterHw σ} {p : Platform} {g : MonData}

/-- A divisor of 0 was there before. -/
def NoNewZero (s t : Polled σ) : Prop := s.group.divisor ≠ some 0 → t.group.divisor ≠ some 0

theorem noNewZero_frame : Frame (NoNewZero (σ := σ)) :=
  ⟨fun _ h => h, fun h h' hs => h' (h hs)⟩

theorem noNewZero_of_eq {s t : Polled σ} (h : t.group.divisor = s.group.divisor) :
    NoNewZero s t := fun hs => by rwa [h]

theorem pollEvent_noNewZero {α : Type} {event mask : MonEvent}
    {reads : EventValues → EStateM Err σ α} {store : α → EventValues → EventValues}
    (hstore : ∀ a pv, (store a pv).ipc = pv.ipc) :
    Keeps NoNewZero (pollEvent event mask reads store) := by
  intro s
  refine noNewZero_of_eq (pollEvent_keeps PollValues.divisor (fun a pv => ?_) s)
  exact congrArg (Option.map Prod.snd) (hstore a pv.values)

theorem storeIpc_divisor (sums : IpcSums) (pv : EventValues) :
    (storeIpc sums pv).ipc.map Prod.snd ≠ some 0 := by
  unfold storeIpc
  dsimp only
  split_ifs with h
  · exact Option.some_ne_none 0 ∘ Eq.symm
  · exact fun heq => h (Option.some.inj heq)

theorem pollIpc_noNewZero :
    Keeps NoNewZero
      (pollEvent g.event perfEventIpc (fun pv => ipcSums hw g pv.fdIns) storeIpc) := by
  intro s hs
  rw [pollEvent_run]
  rcases (readIf g.event perfEventIpc (ipcSums hw g s.group.values.fdIns)).run s.hw
    with ⟨r | sums, t⟩ | ⟨e, t⟩
  · exact hs
  · exact storeIpc_divisor sums s.group.values
  · exact hs

theorem pqosCorePoll_noNewZero : Keeps NoNewZero (pqosCorePoll hw p g) := by
  have hf := noNewZero_frame (σ := σ)
  have hreport : ∀ v : PollValues, (reportFirst v).divisor = v.divisor := by
    intro v
    unfold reportFirst
    split_ifs <;> rfl
  unfold pqosCorePoll
  exact .bind hf (pollEvent_noNewZero fun _ _ => rfl) fun _ =>
    .bind hf (pollEvent_noNewZero fun _ _ => rfl) fun _ =>
    .bind hf (pollEvent_noNewZero fun _ _ => rfl) fun _ =>
    .bind hf (pollEvent_noNewZero fun _ _ => rfl) fun _ =>
    .bind hf pollIpc_noNewZero fun _ =>
    .bind hf (pollEvent_noNewZero fun _ _ => rfl) fun _ s => noNewZero_of_eq (hreport s.group)

theorem polls_divisor (h : Nat → σ) {v : PollValues} (hv : v.divisor ≠ some 0) (n : Nat) :
    (polls hw p g h v n).divisor ≠ some 0 := by
  induction n with
  | zero => exact hv
  | succ n ih => exact pqosCorePoll_noNewZero ⟨h n, polls hw p g h v n⟩ ih

end Msr

/-! ## The OS interface -/

/-- A sum that moved by a wrap moved, and one that moved to 0 is not divided by. -/
theorem osGetDelta_eq_zero {oldValue newValue : Word} (hnew : newValue ≠ 0) :
    osGetDelta oldValue newValue = 0 ↔ newValue = oldValue := by
  have hmax : (BitVec.allOnes 64).toNat = 2 ^ 64 - 1 := by decide
  have hzero : (0 : Word).toNat = 0 := rfl
  have hpos : newValue.toNat ≠ 0 := fun h => hnew (BitVec.eq_of_toNat_eq h)
  have hold := oldValue.isLt
  have hlt := newValue.isLt
  unfold osGetDelta
  split_ifs with h
  · rw [BitVec.lt_def] at h
    rw [← BitVec.toNat_inj, ← BitVec.toNat_inj, BitVec.toNat_add, BitVec.toNat_sub, hmax, hzero]
    omega
  · rw [← BitVec.toNat_inj, ← BitVec.toNat_inj, BitVec.toNat_sub, hzero]
    omega

section Os

variable {σ : Type} (hw : CounterHw σ) (scale : Word → Word) (g : OsGroup)
  (fds : PerfCtr → List Nat)

/-- What a poll has read of the cycles when it is through with their block. -/
def cyclesReading : EStateM Err σ (Option Word) := do
  let _ ← perfReading hw g fds monEventL3Occup .llc
  let _ ← perfReading hw g fds (monEventLmemBw ||| monEventRmemBw) .mbl
  let _ ← perfReading hw g fds (monEventTmemBw ||| monEventRmemBw) .mbt
  let _ ← perfReading hw g fds (perfEventInstructions ||| perfEventIpc) .inst
  perfReading hw g fds (perfEventCycles ||| perfEventIpc) .cyc

/-- The sum of the cycles that a poll reads of the machine as it finds it. -/
def cyclesRead (s : σ) : Option Word := (value ((cyclesReading hw g fds).run s)).join

/-- The last of the sums read before poll `n`, 0 if there is none. -/
def lastRead (read : Nat → Option Word) : Nat → Word
  | 0 => 0
  | n + 1 => (read n).getD (lastRead read n)

/-- The count of cycles that a group holds, and what its last quotient was divided by. -/
def PollValues.cycles (v : PollValues) : Word × Option Word := (v.values.ipcUnhalted, v.divisor)

/-- What a poll makes of the two, where it reads `read`. -/
def cyclesNext (g : OsGroup) (read : Option Word) (cycles : Word × Option Word) :
    Word × Option Word :=
  read.elim cycles fun sum =>
    (sum, if g.event &&& perfEventIpc = 0 then cycles.2
      else if 0#64 < sum then some (osGetDelta cycles.1 sum) else none)

/-- What a part of a poll makes of the two is settled by what it reads of the cycles. -/
abbrev MovesCycles (g : OsGroup) :
    EStateM Err (Polled σ) Unit → EStateM Err σ (Option Word) → Prop :=
  Moves (fun s => s.group.cycles) fun r => cyclesNext g (value r).join

variable {hw scale g fds}

/-- The block of another event. -/
theorem pollEvent_cycles {α : Type} {event mask : MonEvent} {reads : EventValues → EStateM Err σ α}
    {store : α → EventValues → EventValues}
    (hstore : ∀ a pv, (store a pv).ipcUnhalted = pv.ipcUnhalted ∧ (store a pv).ipc = pv.ipc) :
    Keeps (fun s t : Polled σ => t.group.cycles = s.group.cycles)
      (pollEvent event mask reads store) := by
  refine pollEvent_keeps PollValues.cycles fun a pv => ?_
  obtain ⟨hsum, hipc⟩ := hstore a pv.values
  exact Prod.ext hsum (congrArg (Option.map Prod.snd) hipc)

theorem osStoreIpc_divisor (pv : EventValues) : (osStoreIpc pv).ipc.map Prod.snd
    = if 0#64 < pv.ipcUnhalted then some pv.ipcUnhaltedDelta else none := by
  unfold osStoreIpc
  dsimp only
  split_ifs <;> rfl

/-- The blocks of the cycles and of the quotient, and the one after them. -/
theorem movesCycles_cycles : MovesCycles g
    (pollCtr hw g fds (perfEventCycles ||| perfEventIpc) .cyc osStoreUnhalted >>= fun _ =>
      pollEvent g.event perfEventIpc (fun _ => pure ()) (fun _ => osStoreIpc) >>= fun _ =>
      pollCtr hw g fds perfEventLlcMiss .llcMisses osStoreLlcMisses)
    (perfReading hw g fds (perfEventCycles ||| perfEventIpc) .cyc) := by
  intro s
  have hmisses : ∀ t : Polled σ, (final ((pollCtr hw g fds perfEventLlcMiss .llcMisses
      osStoreLlcMisses).run t)).group.cycles = t.group.cycles :=
    pollEvent_keeps PollValues.cycles fun _ _ => rfl
  rw [EStateM.run_bind, pollCtr, pollEvent_run, ← perfReading]
  rcases hr : (perfReading hw g fds (perfEventCycles ||| perfEventIpc) .cyc).run s.hw
    with ⟨r, t⟩ | ⟨e, t⟩
  · dsimp only
    rw [bind_of_ok (pollEvent_pure _), hmisses]
    cases r with
    | none =>
      have hevent : g.event &&& perfEventIpc = 0 := by
        unfold perfReading readIf at hr
        split_ifs at hr with hmask
        · rw [BitVec.and_or_distrib_left] at hmask
          exact (BitVec.or_eq_zero_iff.1 hmask).2
        · obtain ⟨_, -, h⟩ := map_ok.1 hr
          cases h
      rw [if_pos hevent]
      rfl
    | some sum =>
      by_cases hevent : g.event &&& perfEventIpc = 0
      · rw [if_pos hevent]
        exact Prod.ext rfl (if_pos hevent).symm
      · rw [if_neg hevent]
        exact Prod.ext rfl ((osStoreIpc_divisor _).trans (if_neg hevent).symm)
  · rfl

theorem pollPerfCounters_cycles (s : Polled σ) :
    (final ((pollPerfCounters hw scale g fds).run s)).group.cycles
      = cyclesNext g (cyclesRead hw g fds s.hw) s.group.cycles := by
  have hmoves : MovesCycles g (pollPerfCounters hw scale g fds) (cyclesReading hw g fds) := by
    unfold pollPerfCounters cyclesReading
    refine .pollEvent_bind (.pollEvent_bind (.pollEvent_bind (.pollPure_bind (.pollEvent_bind
      movesCycles_cycles ?_ ?_) ?_) ?_ ?_) ?_ ?_) ?_ ?_
    all_goals first
      | exact fun _ _ _ => rfl
      | exact pollEvent_cycles fun _ _ => ⟨rfl, rfl⟩
  exact hmoves s

end Os

/-! ## A run -/

section Run

variable {σ : Type} (hw : CounterHw σ) (scale : Word → Word) (g : OsGroup)
  (fds : PerfCtr → List Nat) (h : Nat → σ)

theorem osPolls_cycles_succ (v : PollValues) (n : Nat) :
    (osPolls hw scale g fds h v (n + 1)).cycles
      = cyclesNext g (cyclesRead hw g fds (h n)) (osPolls hw scale g fds h v n).cycles :=
  pollPerfCounters_cycles ⟨h n, osPolls hw scale g fds h v n⟩

theorem osPolls_lastRead (n : Nat) : (osPolls hw scale g fds h startValues n).values.ipcUnhalted
    = lastRead (fun n => cyclesRead hw g fds (h n)) n := by
  induction n with
  | zero => rfl
  | succ n ih =>
    refine (congrArg Prod.fst (osPolls_cycles_succ hw scale g fds h startValues n)).trans ?_
    rw [lastRead, ← ih]
    cases cyclesRead hw g fds (h n) <;> rfl

/-- A poll divides by 0 where it reads the count again that stands, if that is not 0. -/
theorem cyclesNext_divisor {read : Option Word} (cycles : Word × Option Word)
    (hevent : g.event &&& perfEventIpc ≠ 0) (hold : cycles.2 ≠ some 0) :
    (cyclesNext g read cycles).2 = some 0 ↔ ∃ sum, read = some sum ∧ sum ≠ 0 ∧ sum = cycles.1 := by
  cases read with
  | none => exact iff_of_false hold fun ⟨_, heq, _⟩ => Option.some_ne_none _ heq.symm
  | some sum =>
    have hnext : (cyclesNext g (some sum) cycles).2
        = if 0#64 < sum then some (osGetDelta cycles.1 sum) else none := if_neg hevent
    have hpos : 0#64 < sum ↔ sum ≠ 0 := by
      rw [BitVec.lt_def, ne_eq, ← BitVec.toNat_inj]
      exact Nat.pos_iff_ne_zero
    rw [hnext, if_congr hpos rfl rfl]
    constructor
    · intro hzero
      split_ifs at hzero with hsum
      exact ⟨sum, rfl, hsum, (osGetDelta_eq_zero hsum).1 (Option.some.inj hzero)⟩
    · rintro ⟨_, ⟨⟩, hsum, hsame⟩
      rw [if_pos hsum, (osGetDelta_eq_zero hsum).2 hsame]

/-- The MSR interface never divides by 0. The OS interface does not if and only if no poll of a
group with a quotient reads a count of cycles other than 0 that the poll before it read too. -/
theorem ipcDivisor_iff (p : Platform) (d : MonData) (m : Nat) :
    (∀ n ≤ m, (polls hw p d h startValues n).divisor ≠ some 0)
      ∧ ((∀ n ≤ m, (osPolls hw scale g fds h startValues n).divisor ≠ some 0)
        ↔ g.event &&& perfEventIpc ≠ 0 → ∀ n < m, ∀ sum, cyclesRead hw g fds (h n) = some sum →
            sum = 0 ∨ sum ≠ lastRead (fun n => cyclesRead hw g fds (h n)) n) := by
  have hstart : startValues.divisor ≠ some 0 := by decide
  refine ⟨fun n _ => polls_divisor h hstart n,
    fun hnever hevent n hn sum hsum => ?_, fun hread => ?_⟩
  · by_contra hsame
    push Not at hsame
    refine hnever (n + 1) hn ?_
    have hstands := hsame.2.trans (osPolls_lastRead hw scale g fds h n).symm
    have hdivisor := (cyclesNext_divisor g
      (osPolls hw scale g fds h startValues n).cycles hevent (hnever n (Nat.le_of_lt hn))).2
      ⟨sum, hsum, hsame.1, hstands⟩
    exact (congrArg Prod.snd (osPolls_cycles_succ hw scale g fds h startValues n)).trans hdivisor
  · intro n
    induction n with
    | zero => exact fun _ => hstart
    | succ n ih =>
      intro hn hzero
      have hold := ih (Nat.le_of_succ_le hn)
      have hnext := (congrArg Prod.snd
        (osPolls_cycles_succ hw scale g fds h startValues n)).symm.trans hzero
      by_cases hevent : g.event &&& perfEventIpc = 0
      · -- without the event the poll leaves the quotient alone
        refine hold (Eq.trans ?_ hnext)
        cases cyclesRead hw g fds (h n) with
        | none => rfl
        | some sum => exact (if_pos hevent).symm
      · obtain ⟨sum, hsum, hpos, hsame⟩ := (cyclesNext_divisor g _ hevent hold).1 hnext
        rcases hread hevent n hn sum hsum with hno | hno
        · exact hpos hno
        · exact hno (hsame.trans (osPolls_lastRead hw scale g fds h n))

end Run

/-- The instructions and the cycles of a task. -/
def ipcGroup : OsGroup := ⟨perfEventIpc, [], [7]⟩

def ipcFds : PerfCtr → List Nat
  | .inst => [3]
  | .cyc => [4]
  | _ => []

/-- Two polls of a task that ran before the first and sleeps from then on. -/
theorem osPolls_idle :
    ∃ n ≤ 2, (osPolls countHw id ipcGroup ipcFds (fun _ => 5) startValues n).divisor = some 0 :=
  ⟨2, by decide, by decide⟩

end Pqos
