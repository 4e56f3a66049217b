import Pqos.OsAllocation
import Pqos.Proofs.MbaBackends

/-!
# Where the arithmetic of rates is exact

Both back ends compute with 32-bit unsigned numbers, and the MSR back end subtracts what it gets
from 100. The step they round to comes from a twelve-bit field that nothing checks: with a largest
delay of 100 it is 0, and below that a rate may be rounded past 100.
-/

namespace Pqos

open Prog

/-! ## Checked arithmetic -/

def addChecked (a b : Nat) : Option Nat := if a + b < 2 ^ 32 then some (a + b) else none

def subChecked (a b : Nat) : Option Nat := if b ≤ a then some (a - b) else none

def divChecked (a b : Nat) : Option Nat := if b = 0 then none else some (a / b)

/-- `mbaRound`, unless something wraps or is divided by 0. -/
def mbaRoundChecked (step rate : Nat) : Option Nat := do
  let sum ← addChecked rate (step / 2)
  let n ← divChecked sum step
  return n * step % 2 ^ 32

def mbaDelayChecked (c : CapMba) (rate : Nat) : Option Nat := do
  let rounded ← mbaRoundChecked c.throttleStep rate
  let val ← subChecked 100 rounded
  return min val c.throttleMax

/-- The rate that an entry is reported with, as the register has the delay it was given. -/
def hwMbaRateChecked (c : CapMba) (rate : Nat) : Option Nat := do
  let val ← mbaDelayChecked c rate
  subChecked 100 val

def osMbaRateChecked (step rate : Nat) : Option Nat := do
  let rounded ← mbaRoundChecked step rate
  return if rounded = 0 then step else rounded

theorem eq_some_of_isSome {α : Type} {o : Option α} {a : α} (hsome : o.isSome)
    (h : ∀ b, o = some b → b = a) : o = some a := by
  obtain ⟨b, rfl⟩ := Option.isSome_iff_exists.1 hsome
  rw [h b rfl]

section Checked

variable {c : CapMba} {step rate n : Nat}

theorem mbaRoundChecked_eq (h : mbaRoundChecked step rate = some n) : n = mbaRound step rate := by
  simp only [mbaRoundChecked, addChecked, divChecked, Option.bind_eq_bind,
    Option.bind_eq_some_iff, Option.pure_def, Option.some.injEq] at h
  obtain ⟨sum, hsum, q, hq, rfl⟩ := h
  split_ifs at hsum hq with hlt h0
  cases hsum
  cases hq
  rw [mbaRound, Nat.mod_eq_of_lt hlt]

theorem mbaRoundChecked_isSome (hrate : rate ≤ 100) (hstep : step < 2 ^ 32) :
    (mbaRoundChecked step rate).isSome ↔ step ≠ 0 := by
  have hlt : rate + step / 2 < 2 ^ 32 := by omega
  unfold mbaRoundChecked addChecked divChecked
  rw [if_pos hlt]
  by_cases h : step = 0 <;> simp [h]

theorem mbaDelayChecked_eq (h : mbaDelayChecked c rate = some n) : n = mbaDelay c rate := by
  simp only [mbaDelayChecked, subChecked, Option.bind_eq_bind, Option.bind_eq_some_iff,
    Option.pure_def, Option.some.injEq] at h
  obtain ⟨r, hr, v, hv, rfl⟩ := h
  obtain rfl := mbaRoundChecked_eq hr
  split_ifs at hv with hle
  cases hv
  rw [mbaDelay]
  omega

theorem mbaDelayChecked_isSome (hrate : rate ≤ 100) (hstep : c.throttleStep < 2 ^ 32) :
    (mbaDelayChecked c rate).isSome
      ↔ c.throttleStep ≠ 0 ∧ mbaRound c.throttleStep rate ≤ 100 := by
  rw [← mbaRoundChecked_isSome hrate hstep]
  rcases h : mbaRoundChecked c.throttleStep rate with _ | r
  · simp [mbaDelayChecked, h]
  · obtain rfl := mbaRoundChecked_eq h
    by_cases hle : mbaRound c.throttleStep rate ≤ 100 <;> simp [mbaDelayChecked, h, subChecked, hle]

theorem hwMbaRateChecked_isSome :
    (hwMbaRateChecked c rate).isSome ↔ (mbaDelayChecked c rate).isSome := by
  rcases h : mbaDelayChecked c rate with _ | v
  · simp [hwMbaRateChecked, h]
  · have hle : v ≤ 100 := by
      simp only [mbaDelayChecked, subChecked, Option.bind_eq_bind, Option.bind_eq_some_iff,
        Option.pure_def, Option.some.injEq] at h
      obtain ⟨r, -, w, hw, rfl⟩ := h
      split_ifs at hw
      cases hw
      omega
    simp [hwMbaRateChecked, h, subChecked, hle]

theorem osMbaRateChecked_isSome :
    (osMbaRateChecked step rate).isSome ↔ (mbaRoundChecked step rate).isSome := by
  rcases h : mbaRoundChecked step rate with _ | r <;> simp [osMbaRateChecked, h]

theorem osMbaRateChecked_eq (h : osMbaRateChecked step rate = some n) :
    n = osMbaRate step rate := by
  simp only [osMbaRateChecked, Option.bind_eq_bind, Option.bind_eq_some_iff, Option.pure_def,
    Option.some.injEq] at h
  obtain ⟨r, hr, rfl⟩ := h
  rw [mbaRoundChecked_eq hr, osMbaRate]

end Checked

/-! ## What discovery reports -/

section Discovered

variable {eax ecx edx : BitVec 32} {c : CapMba} {rate : Nat}

/-- The largest delay is any number up to 4096, and the step what it leaves of 100, if it wraps. -/
theorem discoverAllocMba_step (h : discoverAllocMba eax ecx edx = .ok c) :
    c.throttleMax ≤ 4096 ∧ c.throttleStep = (100 + 2 ^ 32 - c.throttleMax) % 2 ^ 32 := by
  unfold discoverAllocMba at h
  split_ifs at h
  cases h
  refine ⟨?_, rfl⟩
  have heax : (eax &&& 0xfff#32).toNat < 2 ^ 12 := by
    rw [BitVec.toNat_and]
    exact Nat.and_lt_two_pow _ (by decide)
  exact heax

theorem throttleStep_eq_zero (h : discoverAllocMba eax ecx edx = .ok c) :
    c.throttleStep = 0 ↔ c.throttleMax = 100 := by
  obtain ⟨hmax, hstep⟩ := discoverAllocMba_step h
  rw [hstep]
  omega

/-- A step that wrapped is above twice any rate, so rates are rounded to 0. -/
theorem mbaRound_wrapped (h : discoverAllocMba eax ecx edx = .ok c) (hmax : 100 < c.throttleMax)
    (hrate : rate ≤ 100) : mbaRound c.throttleStep rate = 0 := by
  obtain ⟨hle, hstep⟩ := discoverAllocMba_step h
  have hsum : (rate + c.throttleStep / 2) % 2 ^ 32 < c.throttleStep := by omega
  rw [mbaRound, Nat.div_eq_of_lt hsum, Nat.zero_mul, Nat.zero_mod]

/-- The rate is nearer to the last multiple of the step up to 100 than to the first one above. -/
def RoundsBelow (step rate : Nat) : Prop := rate + step / 2 < (100 / step + 1) * step

theorem mbaRound_le_iff {step : Nat} (hpos : 0 < step) (hstep : step < 100) (hrate : rate ≤ 100) :
    mbaRound step rate ≤ 100 ↔ RoundsBelow step rate := by
  rw [mbaRound_eq hstep hrate, RoundsBelow, ← Nat.div_lt_iff_lt_mul hpos, Nat.lt_succ_iff,
    Nat.le_div_iff_mul_le hpos]

theorem mbaRound_le_hundred_iff (h : discoverAllocMba eax ecx edx = .ok c) (hrate : rate ≤ 100)
    (hne : c.throttleMax ≠ 100) : mbaRound c.throttleStep rate ≤ 100
      ↔ (c.throttleMax < 100 → RoundsBelow c.throttleStep rate) := by
  rcases Nat.lt_or_ge c.throttleMax 100 with hlt | hge
  · have hlin := discoverAllocMba_linear h hlt
    have hstep : c.throttleStep < 100 := by
      have := hlin.sum
      have := hlin.max
      omega
    rw [mbaRound_le_iff hlin.step hstep hrate]
    exact ⟨fun hr _ => hr, fun hr => hr hlt⟩
  · rw [mbaRound_wrapped h (by omega) hrate]
    exact ⟨fun _ hlt => absurd hlt (Nat.not_lt.2 hge), fun _ => Nat.zero_le _⟩

theorem mbaDelay_le (h : discoverAllocMba eax ecx edx = .ok c) (hrate : rate ≤ 100) :
    mbaDelay c rate ≤ 100 ∧ mbaDelay c rate ≤ c.throttleMax := by
  refine ⟨?_, Nat.min_le_right _ _⟩
  rcases Nat.lt_or_ge 100 c.throttleMax with hgt | hle
  · rw [mbaDelay, mbaRound_wrapped h hgt hrate]
    exact Nat.min_le_left _ _
  · exact (Nat.min_le_right _ _).trans hle

end Discovered

/-! ## The delays that are programmed -/

section Delays

/-- From `s` to `t` no register was given more than 100, or more than the largest delay. -/
def DelaysBounded (c : CapMba) (s t : Msr) : Prop :=
  ∃ l, t.trace = l ++ s.trace ∧ ∀ lcore reg val, Access.wr lcore reg val ∈ l →
    val.toNat ≤ 100 ∧ val.toNat ≤ c.throttleMax

variable {p : Platform} {c : CapMba} {core : Nat} {requested : List Mba} {r : Mba}

theorem DelaysBounded.isFrame : Frame (DelaysBounded c) :=
  Frame.grows Msr.trace (by simp) fun hl hl' lcore reg val h =>
    (List.mem_append.1 h).elim (hl lcore reg val) (hl' lcore reg val)

theorem msrAccess_trace {a : Access} (s : Msr) :
    (final ((msrAccess p a).run s)).trace = s.trace
      ∨ (final ((msrAccess p a).run s)).trace = a :: s.trace := by
  unfold msrAccess
  rw [final_failIf_bind, get_bind, set_bind, failIf_run]
  split_ifs
  · exact Or.inl rfl
  · exact Or.inr rfl
  · exact Or.inr rfl

theorem msrAccess_bounded {a : Access} (h : ∀ lcore reg val, a = .wr lcore reg val →
    val.toNat ≤ 100 ∧ val.toNat ≤ c.throttleMax) : Keeps (DelaysBounded c) (msrAccess p a) := by
  intro s
  rcases msrAccess_trace (p := p) (a := a) s with hs | hs
  · exact ⟨[], hs, by simp⟩
  · refine ⟨[a], hs, fun lcore reg val hmem => h lcore reg val ?_⟩
    exact (List.mem_singleton.1 hmem).symm

theorem mbaWrite_bounded
    (hdelay : mbaDelay c r.mbRate ≤ 100 ∧ mbaDelay c r.mbRate ≤ c.throttleMax) :
    Keeps (DelaysBounded c) (mbaWrite p c core r) := by
  refine Keeps.bind DelaysBounded.isFrame (msrAccess_bounded fun lcore reg val h => ?_) fun _ s =>
    ⟨[], rfl, by simp⟩
  obtain ⟨-, -, rfl⟩ := Access.wr.inj h
  rw [BitVec.toNat_ofNat, Nat.mod_eq_of_lt (Nat.lt_of_le_of_lt hdelay.1 (by decide))]
  exact hdelay

theorem mbaWriteActual_bounded
    (hdelay : mbaDelay c r.mbRate ≤ 100 ∧ mbaDelay c r.mbRate ≤ c.throttleMax) :
    Keeps (DelaysBounded c) (mbaWriteActual p c core r) :=
  Keeps.bind DelaysBounded.isFrame (mbaWrite_bounded hdelay) fun _ =>
    Keeps.bind DelaysBounded.isFrame
      (Keeps.bind DelaysBounded.isFrame (msrAccess_bounded (by simp)) fun _ s => ⟨[], rfl, by simp⟩)
      fun _ => Keeps.pure DelaysBounded.isFrame _

theorem hwMbaSet_bounded (hc : p.capGetType CapItem.mba? = .ok c) {socket : Nat} {want : Bool}
    (hdelay : ∀ r ∈ requested, mbaDelay c r.mbRate ≤ 100 ∧ mbaDelay c r.mbRate ≤ c.throttleMax) :
    Keeps (DelaysBounded c) (hwMbaSet p socket requested want) := by
  have hR := DelaysBounded.isFrame (c := c)
  unfold hwMbaSet
  rw [hc]
  refine keeps_ofExcept_bind hR fun c' hc' => ?_
  obtain rfl := Except.ok.inj hc'
  refine keeps_failIf_bind hR fun _ => keeps_failIf_bind hR fun _ =>
    keeps_ofExcept_bind hR fun core _ => ?_
  split_ifs
  · exact Keeps.map hR (Keeps.mapM hR fun r hr => mbaWriteActual_bounded (hdelay r hr))
  · exact Keeps.bind hR (Keeps.forM hR fun r hr => mbaWrite_bounded (hdelay r hr)) fun _ =>
      Keeps.pure hR _

end Delays

/-! ## Every entry of an accepted table -/

/-- What `pqosMbaSet` asks of a table. -/
def RatesAccepted (requested : List Mba) : Prop :=
  requested ≠ [] ∧ ∀ r ∈ requested, 0 < r.mbRate ∧ r.mbRate ≤ 100

section Total

variable {σ : Type} {b : Backend σ} {socket : Nat} {want : Bool} {requested : List Mba}
  {eax ecx edx : BitVec 32} {c : CapMba}

/-- Any other table is refused. -/
theorem pqosMbaSet_refused (h : ¬ RatesAccepted requested) (s : σ) :
    (pqosMbaSet b socket requested want).run s = .error .param s := by
  unfold pqosMbaSet
  by_cases h0 : requested = []
  · exact bind_of_error (failIf_error.2 ⟨h0, rfl, rfl⟩)
  · rw [bind_of_ok (a := ()) (failIf_ok.2 ⟨h0, rfl⟩)]
    have hrates : ∃ r ∈ requested, r.mbRate = 0 ∨ 100 < r.mbRate := by
      by_contra hall
      push Not at hall
      exact h ⟨h0, fun r hr => ⟨Nat.pos_of_ne_zero (hall r hr).1, (hall r hr).2⟩⟩
    exact bind_of_error (failIf_error.2 ⟨hrates, rfl, rfl⟩)

/-- No back end divides by 0 or wraps on an entry of the table, and no delay that is programmed is
above 100 or the largest. -/
structure MbaTotal (c : CapMba) (requested : List Mba) : Prop where
  hw : ∀ r ∈ requested, mbaDelayChecked c r.mbRate = some (mbaDelay c r.mbRate)
  actual : ∀ r ∈ requested, (hwMbaRateChecked c r.mbRate).isSome
  os : ∀ r ∈ requested,
    osMbaRateChecked c.throttleStep r.mbRate = some (osMbaRate c.throttleStep r.mbRate)
  delays : ∀ p : Platform, p.capGetType CapItem.mba? = .ok c → ∀ socket want,
    Keeps (DelaysBounded c) (pqosMbaSet (hwBackend p) socket requested want)

/-- The exceptions: a largest delay of 100, and below that a rate that is rounded past 100. -/
theorem mbaTotal_iff (h : discoverAllocMba eax ecx edx = .ok c) (hacc : RatesAccepted requested) :
    MbaTotal c requested ↔ c.throttleMax ≠ 100 ∧
      (c.throttleMax < 100 → ∀ r ∈ requested, RoundsBelow c.throttleStep r.mbRate) := by
  obtain ⟨-, hstep⟩ := discoverAllocMba_step h
  have hlt : c.throttleStep < 2 ^ 32 := hstep ▸ Nat.mod_lt _ (by decide)
  have hentry : ∀ r ∈ requested, (mbaDelayChecked c r.mbRate).isSome ↔ c.throttleMax ≠ 100 ∧
      (c.throttleMax < 100 → RoundsBelow c.throttleStep r.mbRate) := by
    intro r hr
    have hrate := (hacc.2 r hr).2
    rw [mbaDelayChecked_isSome hrate hlt, Ne, throttleStep_eq_zero h]
    exact and_congr_right fun hne => mbaRound_le_hundred_iff h hrate hne
  obtain ⟨r₀, hr₀⟩ := List.exists_mem_of_ne_nil _ hacc.1
  constructor
  · intro ht
    have hsome : ∀ r ∈ requested, (mbaDelayChecked c r.mbRate).isSome := fun r hr => by
      rw [ht.hw r hr, Option.isSome_some]
    exact ⟨((hentry r₀ hr₀).1 (hsome r₀ hr₀)).1,
      fun hmax r hr => ((hentry r hr).1 (hsome r hr)).2 hmax⟩
  · rintro ⟨hne, hround⟩
    have hsome : ∀ r ∈ requested, (mbaDelayChecked c r.mbRate).isSome :=
      fun r hr => (hentry r hr).2 ⟨hne, fun hmax => hround hmax r hr⟩
    refine ⟨fun r hr => eq_some_of_isSome (hsome r hr) fun _ => mbaDelayChecked_eq,
      fun r hr => hwMbaRateChecked_isSome.2 (hsome r hr),
      fun r hr => eq_some_of_isSome ?_ fun _ => osMbaRateChecked_eq, fun p hp socket want => ?_⟩
    · rw [osMbaRateChecked_isSome, mbaRoundChecked_isSome (hacc.2 r hr).2 hlt, Ne,
        throttleStep_eq_zero h]
      exact hne
    · have hR := DelaysBounded.isFrame (c := c)
      exact keeps_failIf_bind hR fun _ => keeps_failIf_bind hR fun _ =>
        Keeps.bind hR (Keeps.failIf hR _ _) fun _ =>
          hwMbaSet_bounded hp fun r hr => mbaDelay_le h (hacc.2 r hr).2

/-- A largest delay of 90 leaves a step of 10, which no rate is rounded past 100 with. -/
theorem mbaTotal_tens : MbaTotal ⟨8, 90, 10, true⟩ [⟨1, 95⟩] :=
  (mbaTotal_iff (show discoverAllocMba 89 4 7 = _ by decide +kernel) (by
    refine ⟨by decide, fun r hr => ?_⟩
    obtain rfl := List.mem_singleton.1 hr
    decide)).2 (by
      refine ⟨by decide, fun _ r hr => ?_⟩
      obtain rfl := List.mem_singleton.1 hr
      exact (by decide : 95 + 10 / 2 < (100 / 10 + 1) * 10))

/-- A largest delay of 100 leaves a step of 0, and every rate is divided by it. -/
theorem not_mbaTotal : ¬ ∀ (eax ecx edx : BitVec 32) (c : CapMba) (requested : List Mba),
    discoverAllocMba eax ecx edx = .ok c → RatesAccepted requested → MbaTotal c requested := by
  intro h
  have hacc : RatesAccepted [⟨0, 50⟩] := by
    refine ⟨by decide, fun r hr => ?_⟩
    obtain rfl := List.mem_singleton.1 hr
    decide
  have ht := h 99 4 0 ⟨1, 100, 0, true⟩ [⟨0, 50⟩] (by decide +kernel) hacc
  exact absurd (ht.hw _ List.mem_cons_self) (by decide)

end Total

end Pqos
