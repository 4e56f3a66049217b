import Pqos.Poll
import Pqos.Lib.Counter
import Mathlib.Algebra.Order.Ring.Abs

/-!
# What a poll reports

A poll reads one event after another and stores each before it reads the next. The bandwidth it
reports comes from the sums over the clusters, which wrap as often as the clusters' counters do.
-/

namespace Pqos

open Prog

/-! ## One event -/

section Event

variable {σ α : Type} (event : MonEvent)

/-- What the block of an event reads, if the group has one of the mask's events. -/
def readIf (mask : MonEvent) (x : EStateM Err σ α) : EStateM Err σ (Option α) :=
  if event &&& mask = 0 then return none else some <$> x

/-- The values after the block of an event. -/
def storedBy (store : α → EventValues → EventValues) (r : Option α) (s : PollValues) : PollValues :=
  r.elim s fun a => { s with values := store a s.values }

variable {event} {mask : MonEvent} {reads : EventValues → EStateM Err σ α}
  {store : α → EventValues → EventValues} {s t : Polled σ} {e : Err} {u : Unit}

theorem readIf_map {β : Type} {x : EStateM Err σ α} {f : α → β} :
    readIf event mask (f <$> x) = Option.map f <$> readIf event mask x := by
  unfold readIf
  split_ifs
  · rfl
  · rw [Functor.map_map, Functor.map_map]
    rfl

theorem readIf_pure {r : Option Unit} {h h' : σ}
    (hr : (readIf event mask (pure () : EStateM Err σ Unit)).run h = .ok r h') : h' = h := by
  unfold readIf at hr
  split_ifs at hr <;> cases hr <;> rfl

theorem pollEvent_run : (pollEvent event mask reads store).run s
    = match (readIf event mask (reads s.group.values)).run s.hw with
      | .ok r h => .ok ⟨⟩ ⟨h, storedBy store r s.group⟩
      | .error e h => .error e ⟨h, s.group⟩ := by
  unfold pollEvent readIf
  by_cases hm : event &&& mask = 0
  · simp only [hm, if_true]
    rfl
  · simp only [hm, if_false]
    change (zoom Polled.hw (fun h s => { s with hw := h }) (reads s.group.values) >>= _).run s = _
    rw [EStateM.run_bind, zoom_run, map_eq_pure_bind, EStateM.run_bind]
    rcases (reads s.group.values).run s.hw with ⟨a, h⟩ | ⟨e, h⟩ <;> rfl

theorem pollEvent_ok : (pollEvent event mask reads store).run s = .ok u t
    ↔ ∃ r h, (readIf event mask (reads s.group.values)).run s.hw = .ok r h
      ∧ t = ⟨h, storedBy store r s.group⟩ := by
  rw [pollEvent_run]
  rcases (readIf event mask (reads s.group.values)).run s.hw with ⟨r, h⟩ | ⟨e, h⟩ <;> simp [eq_comm]

theorem pollEvent_error : (pollEvent event mask reads store).run s = .error e t
    ↔ ∃ h, (readIf event mask (reads s.group.values)).run s.hw = .error e h ∧ t = ⟨h, s.group⟩ := by
  rw [pollEvent_run]
  rcases (readIf event mask (reads s.group.values)).run s.hw with ⟨r, h⟩ | ⟨e, h⟩ <;> simp [eq_comm]

/-- A block that reads no counter succeeds, and leaves the machine alone. -/
theorem pollEvent_pure {store : Unit → EventValues → EventValues} (s : Polled σ) :
    (pollEvent event mask (fun _ => pure ()) store).run s
      = .ok ⟨⟩ ⟨s.hw, if event &&& mask = 0 then s.group
        else { s.group with values := store () s.group.values }⟩ := by
  rw [pollEvent_run]
  unfold readIf
  split_ifs <;> rfl

/-- What no store of a block changes, the block does not change. -/
theorem pollEvent_keeps {γ : Type} (f : PollValues → γ)
    (hf : ∀ a pv, f { pv with values := store a pv.values } = f pv) :
    Keeps (fun s t : Polled σ => f t.group = f s.group) (pollEvent event mask reads store) := by
  intro s
  rw [pollEvent_run]
  rcases (readIf event mask (reads s.group.values)).run s.hw with ⟨r | a, h⟩ | ⟨e, h⟩
  · rfl
  · exact hf a s.group
  · rfl

end Event

/-! ## What a part of a poll moves -/

section Moves

variable {σ α γ : Type} {obs : Polled σ → γ} {next : EStateM.Result Err σ (Option α) → γ → γ}
  {x : EStateM Err (Polled σ) Unit} {y : EStateM Err σ (Option α)} {event mask : MonEvent}

/-- What a part of a poll makes of something about the machine and the values is settled by what a
program reads of the machine. -/
def Moves (obs : Polled σ → γ) (next : EStateM.Result Err σ (Option α) → γ → γ)
    (x : EStateM Err (Polled σ) Unit) (y : EStateM Err σ (Option α)) : Prop :=
  ∀ s, obs (final (x.run s)) = next (y.run s.hw) (obs s)

/-- The block of another event comes before. -/
theorem Moves.pollEvent_bind {β : Type} {z : EStateM Err σ β}
    {store : β → EventValues → EventValues}
    (h : Moves obs next x y) (herr : ∀ e u c, next (.error e u) c = c)
    (hkeep : Keeps (fun s t => obs t = obs s) (pollEvent event mask (fun _ => z) store)) :
    Moves obs next (pollEvent event mask (fun _ => z) store >>= fun _ => x)
      (readIf event mask z >>= fun _ => y) := by
  intro s
  have hkept := hkeep s
  rw [EStateM.run_bind, EStateM.run_bind]
  rw [pollEvent_run] at hkept ⊢
  rcases hr : (readIf event mask z).run s.hw with ⟨r, u⟩ | ⟨e, u⟩ <;> rw [hr] at hkept
  · exact (h ⟨u, storedBy store r s.group⟩).trans (congrArg (next _) hkept)
  · exact hkept.trans (herr e u (obs s)).symm

/-- A block that reads nothing comes before. -/
theorem Moves.pollPure_bind {store : Unit → EventValues → EventValues} (h : Moves obs next x y)
    (hkeep : Keeps (fun s t => obs t = obs s) (pollEvent event mask (fun _ => pure ()) store)) :
    Moves obs next (pollEvent event mask (fun _ => pure ()) store >>= fun _ => x) y := by
  intro s
  have hkept := hkeep s
  rw [pollEvent_pure] at hkept
  rw [bind_of_ok (pollEvent_pure s)]
  exact (h _).trans (congrArg (next _) hkept)

end Moves

/-! ## What a poll reads -/

section Readings

variable {σ : Type} (hw : CounterHw σ) (g : MonData)

def llcReadings : EStateM Err σ (Option (List Word)) :=
  readIf g.event monEventL3Occup (monReadings hw g monEventL3Occup)

/-- The two bandwidths a poll reads. -/
inductive Mbm
  | local | total
deriving DecidableEq

namespace Mbm

def event : Mbm → MonEvent
  | .local => monEventLmemBw
  | .total => monEventTmemBw

def mask (k : Mbm) : MonEvent := k.event ||| monEventRmemBw

def value : Mbm → EventValues → Word
  | .local => EventValues.mbmLocal
  | .total => EventValues.mbmTotal

def delta : Mbm → EventValues → Word
  | .local => EventValues.mbmLocalDelta
  | .total => EventValues.mbmTotalDelta

/-- What a poll has read of the clusters when it is through with a bandwidth's block. -/
def readings (k : Mbm) : EStateM Err σ (Option (List Word)) :=
  match k with
  | .local => do
    let _ ← llcReadings hw g
    readIf g.event (mask .local) (monReadings hw g monEventLmemBw)
  | .total => do
    let _ ← llcReadings hw g
    let _ ← readIf g.event (mask .local) (monReadings hw g monEventLmemBw)
    readIf g.event (mask .total) (monReadings hw g monEventTmemBw)

end Mbm

/-- What a poll has read of the cores when it is through with their block. -/
def ipcReadings (fdIns : Int) : EStateM Err σ (Option IpcSums) := do
  let _ ← Mbm.readings hw g .total
  readIf g.event perfEventIpc (ipcSums hw g fdIns)

end Readings

section Blocks

variable {σ : Type} {hw : CounterHw σ} {p : Platform} {g : MonData} {mask event : MonEvent}
  {store : Word → EventValues → EventValues} {s t : Polled σ} {e : Err} {u : Unit}

theorem stored_map {α β : Type} {f : α → β} {store : β → EventValues → EventValues} {r : Option α}
    {s : PollValues} : storedBy store (r.map f) s = storedBy (fun a => store (f a)) r s := by
  cases r <;> rfl

theorem pollTotal_ok : (pollEvent g.event mask (fun _ => monTotal hw g event) store).run s = .ok u t
    ↔ ∃ r h, (readIf g.event mask (monReadings hw g event)).run s.hw = .ok r h
      ∧ t = ⟨h, storedBy (fun vs => store vs.sum) r s.group⟩ := by
  simp only [pollEvent_ok, monTotal, readIf_map, map_ok]
  constructor
  · rintro ⟨_, h, ⟨r, hr, rfl⟩, rfl⟩
    exact ⟨r, h, hr, by rw [stored_map]⟩
  · rintro ⟨r, h, hr, rfl⟩
    exact ⟨_, h, ⟨r, hr, rfl⟩, by rw [stored_map]⟩

theorem map_error {ε σ α β : Type} {x : EStateM ε σ α} {f : α → β} {s t : σ} {e : ε} :
    (f <$> x).run s = .error e t ↔ x.run s = .error e t := by
  rw [map_eq_pure_bind, EStateM.run_bind]
  rcases x.run s with ⟨a, u⟩ | ⟨e, u⟩ <;> simp

theorem pollTotal_error :
    (pollEvent g.event mask (fun _ => monTotal hw g event) store).run s = .error e t
      ↔ ∃ h, (readIf g.event mask (monReadings hw g event)).run s.hw = .error e h
        ∧ t = ⟨h, s.group⟩ := by
  simp only [pollEvent_error, monTotal, readIf_map, map_error]

end Blocks

/-! ## A poll that succeeds -/

section Success

variable {σ : Type} {hw : CounterHw σ} {p : Platform} {g : MonData} {s t : Polled σ} {u : Unit}

theorem reportFirst_mbm (k : Mbm) (s : PollValues) :
    k.value (reportFirst s).values = k.value s.values ∧ (reportFirst s).validMbmRead = true
      ∧ k.delta (reportFirst s).values = if s.validMbmRead then k.delta s.values else 0 := by
  unfold reportFirst
  cases hv : s.validMbmRead <;> cases k <;> simp [hv, Mbm.value, Mbm.delta]

/-- A poll keeps the sum of what it read of the clusters and, after the first, reports how far the
sum moved. -/
theorem pqosCorePoll_mbm {k : Mbm} {vs : List Word} (h : (pqosCorePoll hw p g).run s = .ok u t)
    (hvs : value ((k.readings hw g).run s.hw) = some (some vs)) :
    k.value t.group.values = vs.sum ∧ t.group.validMbmRead = true
      ∧ k.delta t.group.values = if s.group.validMbmRead
        then scaleEvent p k.event (getDelta (k.value s.group.values) vs.sum) else 0 := by
  unfold pqosCorePoll at h
  simp only [bind_ok] at h
  obtain ⟨_, s₁, h₁, _, s₂, h₂, _, s₃, h₃, _, s₄, h₄, _, s₅, h₅, _, s₆, h₆, ht⟩ := h
  cases ht
  obtain ⟨hvalue, hvalid, hdelta⟩ := reportFirst_mbm k s₆.group
  -- the blocks after the bandwidths leave them alone
  have hlater : ∀ f : PollValues → Word × Bool,
      f = (fun pv => (k.value pv.values, pv.validMbmRead))
        ∨ f = (fun pv => (k.delta pv.values, pv.validMbmRead)) → f s₆.group = f s₃.group := by
    intro f hf
    rw [(pollEvent_keeps f ?_).of_ok h₆, (pollEvent_keeps f ?_).of_ok h₅,
      (pollEvent_keeps f ?_).of_ok h₄]
    all_goals
      intro a pv
      rcases hf with rfl | rfl <;> cases k <;> rfl
  obtain ⟨hvalue₆, hvalid₆⟩ := Prod.mk.inj (hlater _ (Or.inl rfl))
  obtain ⟨hdelta₆, -⟩ := Prod.mk.inj (hlater _ (Or.inr rfl))
  rw [hvalue, hdelta, hvalue₆, hvalid₆, hdelta₆]
  obtain ⟨h', hvs⟩ := value_eq_some.1 hvs
  obtain ⟨llc, _, hllc, rfl⟩ := pollTotal_ok.1 h₁
  have hstart := (pollEvent_keeps (fun pv => (k.value pv.values, pv.validMbmRead))
    fun a pv => by cases k <;> rfl).of_ok h₁
  obtain ⟨hvalue₁, hvalid₁⟩ := Prod.mk.inj hstart
  cases k with
  | «local» =>
    obtain ⟨_, _, hllc', hvs⟩ := bind_ok.1 hvs
    rw [llcReadings, hllc] at hllc'
    cases hllc'
    obtain ⟨loc, _, hloc, rfl⟩ := pollTotal_ok.1 h₂
    obtain rfl : some vs = loc := (EStateM.Result.ok.inj (hvs.symm.trans hloc)).1
    have hkeep := (pollEvent_keeps (fun pv => (pv.values.mbmLocal, pv.values.mbmLocalDelta,
      pv.validMbmRead)) fun _ _ => rfl).of_ok h₃
    simp only [Prod.mk.injEq] at hkeep
    rw [← hvalue₁, ← hvalid₁, hkeep.2.2]
    exact ⟨hkeep.1, hvalid, by simp only [Mbm.delta, hkeep.2.1]; rfl⟩
  | total =>
    obtain ⟨_, _, hllc', hvs⟩ := bind_ok.1 hvs
    rw [llcReadings, hllc] at hllc'
    cases hllc'
    obtain ⟨loc, _, hloc, rfl⟩ := pollTotal_ok.1 h₂
    obtain ⟨_, _, hloc', hvs⟩ := bind_ok.1 hvs
    obtain ⟨rfl, rfl⟩ := EStateM.Result.ok.inj (hloc'.symm.trans hloc)
    obtain ⟨tot, _, htot, rfl⟩ := pollTotal_ok.1 h₃
    obtain rfl : some vs = tot := (EStateM.Result.ok.inj (hvs.symm.trans htot)).1
    have hkeep := (pollEvent_keeps (fun pv => (pv.values.mbmTotal, pv.validMbmRead))
      fun _ _ => rfl).of_ok h₂
    simp only [Prod.mk.injEq] at hkeep
    rw [← hvalue₁, ← hvalid₁, ← hkeep.2]
    refine ⟨rfl, hvalid, ?_⟩
    simp only [Mbm.value, ← hkeep.1]
    rfl

end Success

/-! ## Bandwidth over a run -/

section Bandwidth

open Counter

/-- The factor of an event, 1 if the platform does not have it. -/
def scaleFactor (p : Platform) (event : MonEvent) : Nat :=
  match p.capGetEvent event with
  | .error _ => 1
  | .ok pmon => pmon.scaleFactor.toNat

theorem toNat_mod_modEq (a : Nat) : ((a % 2 ^ 64 : Nat) : ℤ) ≡ a [ZMOD 2 ^ 64] := by
  rw [Int.natCast_mod]
  exact Int.mod_modEq _ _

theorem scaleEvent_modEq (p : Platform) (event : MonEvent) (val : Word) :
    ((scaleEvent p event val).toNat : ℤ) ≡ val.toNat * scaleFactor p event [ZMOD 2 ^ 64] := by
  unfold scaleEvent scaleFactor
  cases p.capGetEvent event with
  | error e => rw [Nat.cast_one, mul_one]
  | ok pmon =>
    have hsf : (pmon.scaleFactor.setWidth 64).toNat = pmon.scaleFactor.toNat := by
      rw [BitVec.toNat_setWidth]
      exact Nat.mod_eq_of_lt (Nat.lt_of_lt_of_le pmon.scaleFactor.isLt (by decide))
    rw [BitVec.toNat_mul, hsf, ← Nat.cast_mul]
    exact toNat_mod_modEq _

theorem getDelta_modEq (a b : Word) : ((getDelta a b).toNat : ℤ)
    ≡ b.toNat - a.toNat + (if b < a then 2 ^ 24 else 0) [ZMOD 2 ^ 64] := by
  have ha := a.isLt
  have hmax : mbmMaxValue.toNat = 2 ^ 24 := by decide
  unfold getDelta
  split_ifs
  · rw [BitVec.toNat_add, BitVec.toNat_sub, hmax, Int.ModEq]
    omega
  · rw [BitVec.toNat_sub, Int.ModEq]
    omega

/-- What a poll reads of 24-bit counters. -/
def readingsOf (counts : List Nat) : List Word := counts.map fun c => BitVec.ofNat 64 (c % 2 ^ 24)

theorem readingsOf_sum (counts : List Nat) :
    (readingsOf counts).sum.toNat = shown (2 ^ 24) counts % 2 ^ 64 := by
  induction counts with
  | nil => rfl
  | cons c counts ih =>
    have hcons : shown (2 ^ 24) (c :: counts) = c % 2 ^ 24 + shown (2 ^ 24) counts := rfl
    rw [hcons, readingsOf, List.map_cons, List.sum_cons, BitVec.toNat_add, ← readingsOf, ih,
      BitVec.toNat_ofNat, ← Nat.add_mod]

/-- The one correction that a poll makes, where the sum of the readings fell, makes up for the
counters that wrapped: they are as many, or the factor hides the rest, and the product has room. -/
def WrapsMadeUp (factor : Nat) (counts counts' : List Nat) : Prop :=
  factor * increment counts counts' < 2 ^ 64
    ∧ (2 : ℤ) ^ 40 ∣ factor * (wraps (2 ^ 24) counts counts'
        - if shown (2 ^ 24) counts' % 2 ^ 64 < shown (2 ^ 24) counts % 2 ^ 64 then 1 else 0)

theorem scaleEvent_delta_iff (p : Platform) (event : MonEvent) {counts counts' : List Nat}
    (h : Advance (2 ^ 24) counts counts') :
    (scaleEvent p event (getDelta (readingsOf counts).sum (readingsOf counts').sum)).toNat
        = scaleFactor p event * increment counts counts'
      ↔ WrapsMadeUp (scaleFactor p event) counts counts' := by
  set a := (readingsOf counts).sum with ha
  set b := (readingsOf counts').sum with hb
  have hfell : b < a ↔ shown (2 ^ 24) counts' % 2 ^ 64 < shown (2 ^ 24) counts % 2 ^ 64 := by
    rw [BitVec.lt_def, ha, hb, readingsOf_sum, readingsOf_sum]
  have hsub : (b.toNat - a.toNat : ℤ) ≡ shown (2 ^ 24) counts' - shown (2 ^ 24) counts
      [ZMOD 2 ^ 64] := by
    rw [ha, hb, readingsOf_sum, readingsOf_sum]
    exact (toNat_mod_modEq _).sub (toNat_mod_modEq _)
  have hreport : ((scaleEvent p event (getDelta a b)).toNat : ℤ)
      ≡ ((scaleFactor p event * increment counts counts' : Nat) : ℤ)
        - scaleFactor p event * 2 ^ 24 * (wraps (2 ^ 24) counts counts' - if b < a then 1 else 0)
      [ZMOD 2 ^ 64] := by
    refine (scaleEvent_modEq p event _).trans ?_
    refine (((getDelta_modEq a b).trans (hsub.add_right _)).mul_right _).trans ?_
    have heq : (shown (2 ^ 24) counts' - shown (2 ^ 24) counts + (if b < a then 2 ^ 24 else 0) : ℤ)
          * scaleFactor p event
        = ((scaleFactor p event * increment counts counts' : Nat) : ℤ)
          - scaleFactor p event * 2 ^ 24
            * (wraps (2 ^ 24) counts counts' - if b < a then 1 else 0) := by
      rw [shown_sub h]
      push_cast
      split_ifs <;> ring
    rw [heq]
  have hroom : ((2 ^ 64 : Nat) : ℤ) = 2 ^ 64 := by norm_num
  rw [← hroom] at hreport
  rw [eq_iff_of_modEq (scaleEvent p event (getDelta a b)).isLt hreport, WrapsMadeUp]
  refine and_congr_right fun _ => ?_
  rw [if_congr hfell.symm rfl rfl, hroom, mul_right_comm,
    show (2 : ℤ) ^ 64 = 2 ^ 40 * 2 ^ 24 by norm_num]
  exact mul_dvd_mul_iff_right (by norm_num)

/-- With a factor and no more than 256 clusters, the wraps are made up for when there are as many as
corrections: none, or one and the sum of the readings fell. -/
theorem wrapsMadeUp_iff {factor : Nat} {counts counts' : List Nat} (hpos : 0 < factor)
    (hlt : factor < 2 ^ 32) (hlen : counts.length < 2 ^ 8) :
    WrapsMadeUp factor counts counts' ↔ factor * increment counts counts' < 2 ^ 64
      ∧ wraps (2 ^ 24) counts counts'
        = if shown (2 ^ 24) counts' % 2 ^ 64 < shown (2 ^ 24) counts % 2 ^ 64 then 1 else 0 := by
  unfold WrapsMadeUp
  refine and_congr_right fun _ => ?_
  have hw : wraps (2 ^ 24) counts counts' < 2 ^ 8 :=
    Nat.lt_of_le_of_lt (List.countP_le_length.trans (by simp)) hlen
  generalize wraps (2 ^ 24) counts counts' = w at hw ⊢
  have key : ∀ c : Nat, c ≤ 1 → ((2 : ℤ) ^ 40 ∣ factor * ((w : ℤ) - c) ↔ w = c) := by
    intro c hc
    refine ⟨fun hdvd => ?_, fun hwc => by rw [hwc, sub_self, mul_zero]; exact dvd_zero _⟩
    have hfactor : |(factor : ℤ)| < 2 ^ 32 := by
      rw [abs_of_nonneg (Int.natCast_nonneg factor)]
      exact_mod_cast hlt
    have hdiff : |(w : ℤ) - c| ≤ 2 ^ 8 := by
      rw [abs_le]
      omega
    have hsmall : |(factor : ℤ) * (w - c)| < 2 ^ 40 := by
      rw [abs_mul]
      calc |(factor : ℤ)| * |(w : ℤ) - c| ≤ |(factor : ℤ)| * 2 ^ 8 :=
            mul_le_mul_of_nonneg_left hdiff (abs_nonneg _)
        _ < 2 ^ 32 * 2 ^ 8 := mul_lt_mul_of_pos_right hfactor (by norm_num)
        _ = 2 ^ 40 := by norm_num
    have hzero := Int.eq_zero_of_abs_lt_dvd hdvd hsmall
    rcases mul_eq_zero.1 hzero with h0 | h0 <;> omega
  split_ifs
  · exact_mod_cast key 1 (Nat.le_refl 1)
  · exact_mod_cast key 0 (Nat.zero_le 1)

section Run

variable {σ : Type} (hw : CounterHw σ) (p : Platform) (g : MonData)

/-- The values of a group after polls, each of which finds the machine as `h` says. -/
def polls (h : Nat → σ) (v : PollValues) : Nat → PollValues
  | 0 => v
  | n + 1 => (final ((pqosCorePoll hw p g).run ⟨h n, polls h v n⟩)).group

/-- Polls that succeed and read 24-bit counters, which stand at `counts n` when poll `n` reads them
and advance by less than 2^24 from one poll to the next. -/
structure MbmRun (k : Mbm) (h : Nat → σ) (v : PollValues) (counts : Nat → List Nat) (m : Nat) :
    Prop where
  poll : ∀ n < m, value ((pqosCorePoll hw p g).run ⟨h n, polls hw p g h v n⟩) = some ()
  reads : ∀ n < m, value ((k.readings hw g).run (h n)) = some (some (readingsOf (counts n)))
  advance : ∀ n < m, n + 1 < m → Advance (2 ^ 24) (counts n) (counts (n + 1))

variable {hw p g} {k : Mbm} {h : Nat → σ} {v : PollValues} {counts : Nat → List Nat} {m n : Nat}

theorem MbmRun.step (hrun : MbmRun hw p g k h v counts m) (hn : n < m) :
    k.value (polls hw p g h v (n + 1)).values = (readingsOf (counts n)).sum
      ∧ (polls hw p g h v (n + 1)).validMbmRead = true
      ∧ k.delta (polls hw p g h v (n + 1)).values
        = if (polls hw p g h v n).validMbmRead
          then scaleEvent p k.event
            (getDelta (k.value (polls hw p g h v n).values) (readingsOf (counts n)).sum)
          else 0 := by
  obtain ⟨t, ht⟩ := value_eq_some.1 (hrun.poll n hn)
  have hpoll := pqosCorePoll_mbm ht (hrun.reads n hn)
  rwa [polls, ht]

/-- A poll after the first reports the true advance if and only if the wraps were made up for. -/
theorem polls_bandwidth_iff (hrun : MbmRun hw p g k h v counts m) (hn : n + 1 < m) :
    (k.delta (polls hw p g h v (n + 2)).values).toNat
        = scaleFactor p k.event * increment (counts n) (counts (n + 1))
      ↔ WrapsMadeUp (scaleFactor p k.event) (counts n) (counts (n + 1)) := by
  have hn' : n < m := Nat.lt_of_succ_lt hn
  obtain ⟨hvalue, hvalid, -⟩ := hrun.step hn'
  obtain ⟨-, -, hdelta⟩ := hrun.step hn
  rw [hvalid, if_pos rfl, hvalue] at hdelta
  rw [hdelta]
  exact scaleEvent_delta_iff p k.event (hrun.advance n hn' hn)

end Run

end Bandwidth

/-! ## A poll that fails -/

section Failure

/-- What the next poll takes its deltas from. -/
structure Baselines where
  mbmLocal : Word
  mbmTotal : Word
  ipc : IpcSums
  llcMisses : Word
deriving DecidableEq

def EventValues.baselines (pv : EventValues) : Baselines :=
  ⟨pv.mbmLocal, pv.mbmTotal, ⟨pv.ipcRetired, pv.ipcUnhalted, pv.ipcRetiredPid⟩, pv.llcMisses⟩

variable {σ : Type} (hw : CounterHw σ) (p : Platform) (g : MonData)

/-- Every event that the poll read to its end showed what is stored of it. -/
structure Unmoved (s : Polled σ) : Prop where
  mbm : ∀ (k : Mbm) vs, value ((k.readings hw g).run s.hw) = some (some vs) →
    vs.sum = k.value s.group.values
  ipc : ∀ sums, value ((ipcReadings hw g s.group.values.fdIns).run s.hw) = some (some sums) →
    sums = s.group.values.baselines.ipc

variable {hw p g} {s t : Polled σ} {e : Err}

/-- The values after the bandwidths' blocks. -/
theorem stored_mbm (llc loc tot : Option (List Word)) (rem : Option Unit) (v : PollValues) :
    let w := storedBy (fun _ => storeRemote) rem (storedBy (fun vs => storeTotal p vs.sum) tot
      (storedBy (fun vs => storeLocal p vs.sum) loc (storedBy (fun vs => storeLlc p vs.sum) llc v)))
    w.values.baselines = ⟨(loc.map List.sum).getD v.values.mbmLocal,
        (tot.map List.sum).getD v.values.mbmTotal, v.values.baselines.ipc, v.values.llcMisses⟩
      ∧ w.values.fdIns = v.values.fdIns := by
  cases llc <;> cases loc <;> cases tot <;> cases rem <;> exact ⟨rfl, rfl⟩

theorem stored_ipc (ipc : Option IpcSums) (v : PollValues) :
    (storedBy storeIpc ipc v).values.baselines
      = { v.values.baselines with ipc := ipc.getD v.values.baselines.ipc } := by
  cases ipc <;> rfl

/-- What a failing poll has stored: the events it read to their end. -/
theorem pqosCorePoll_failed_baselines (h : (pqosCorePoll hw p g).run s = .error e t) :
    t.group.values.baselines =
      ⟨((value ((Mbm.local.readings hw g).run s.hw)).join.map List.sum).getD
        s.group.values.mbmLocal,
        ((value ((Mbm.total.readings hw g).run s.hw)).join.map List.sum).getD
          s.group.values.mbmTotal,
        (value ((ipcReadings hw g s.group.values.fdIns).run s.hw)).join.getD
          s.group.values.baselines.ipc,
        s.group.values.llcMisses⟩ := by
  unfold pqosCorePoll at h
  -- a block after another: the poll failed in it, or what it read is known from here on
  rcases bind_error.1 h with h₁ | ⟨_, s₁, h₁, h⟩
  · obtain ⟨_, hllc, rfl⟩ := pollTotal_error.1 h₁
    have hL : (Mbm.local.readings hw g).run s.hw = .error e _ := bind_of_error hllc
    have hT : (Mbm.total.readings hw g).run s.hw = .error e _ := bind_of_error hllc
    have hI : (ipcReadings hw g s.group.values.fdIns).run s.hw = .error e _ := bind_of_error hT
    rw [hL, hT, hI]
    rfl
  obtain ⟨llc, _, hllc, rfl⟩ := pollTotal_ok.1 h₁
  rcases bind_error.1 h with h₂ | ⟨_, s₂, h₂, h⟩
  · obtain ⟨_, hloc, rfl⟩ := pollTotal_error.1 h₂
    have hL : (Mbm.local.readings hw g).run s.hw = .error e _ := (bind_of_ok hllc).trans hloc
    have hT : (Mbm.total.readings hw g).run s.hw = .error e _ :=
      (bind_of_ok hllc).trans (bind_of_error hloc)
    have hI : (ipcReadings hw g s.group.values.fdIns).run s.hw = .error e _ := bind_of_error hT
    rw [hL, hT, hI]
    cases llc <;> rfl
  obtain ⟨loc, _, hloc, rfl⟩ := pollTotal_ok.1 h₂
  have hL : (Mbm.local.readings hw g).run s.hw = .ok loc _ := (bind_of_ok hllc).trans hloc
  rcases bind_error.1 h with h₃ | ⟨_, s₃, h₃, h⟩
  · obtain ⟨_, htot, rfl⟩ := pollTotal_error.1 h₃
    have hT : (Mbm.total.readings hw g).run s.hw = .error e _ :=
      (bind_of_ok hllc).trans ((bind_of_ok hloc).trans htot)
    have hI : (ipcReadings hw g s.group.values.fdIns).run s.hw = .error e _ := bind_of_error hT
    rw [hL, hT, hI]
    cases llc <;> cases loc <;> rfl
  obtain ⟨tot, _, htot, rfl⟩ := pollTotal_ok.1 h₃
  have hT : (Mbm.total.readings hw g).run s.hw = .ok tot _ :=
    (bind_of_ok hllc).trans ((bind_of_ok hloc).trans htot)
  rcases bind_error.1 h with h₄ | ⟨_, s₄, h₄, h⟩
  · obtain ⟨_, hrem, -⟩ := pollEvent_error.1 h₄
    unfold readIf at hrem
    split_ifs at hrem <;> cases hrem
  obtain ⟨rem, _, hrem, rfl⟩ := pollEvent_ok.1 h₄
  obtain rfl := readIf_pure hrem
  obtain ⟨hbase, hfd⟩ := stored_mbm (p := p) llc loc tot rem s.group
  rcases bind_error.1 h with h₅ | ⟨_, s₅, h₅, h⟩
  · obtain ⟨_, hipc, rfl⟩ := pollEvent_error.1 h₅
    rw [hfd] at hipc
    have hI : (ipcReadings hw g s.group.values.fdIns).run s.hw = .error e _ :=
      (bind_of_ok hT).trans hipc
    rw [hL, hT, hI]
    exact hbase
  obtain ⟨ipc, _, hipc, rfl⟩ := pollEvent_ok.1 h₅
  rw [hfd] at hipc
  have hI : (ipcReadings hw g s.group.values.fdIns).run s.hw = .ok ipc _ :=
    (bind_of_ok hT).trans hipc
  rcases bind_error.1 h with h₆ | ⟨_, s₆, -, hlast⟩
  · obtain ⟨_, -, rfl⟩ := pollEvent_error.1 h₆
    rw [hL, hT, hI, stored_ipc, hbase]
    rfl
  · cases hlast

theorem getD_join_map {α β : Type} {o : Option (Option α)} {f : α → β} {b : β} :
    (o.join.map f).getD b = b ↔ ∀ a, o = some (some a) → f a = b := by
  rcases o with _ | _ | a <;> simp

theorem getD_join {α : Type} {o : Option (Option α)} {a : α} :
    o.join.getD a = a ↔ ∀ b, o = some (some b) → b = a := by
  rcases o with _ | _ | b <;> simp

theorem pqosCorePoll_failed (h : (pqosCorePoll hw p g).run s = .error e t) :
    t.group.values.baselines = s.group.values.baselines ↔ Unmoved hw g s := by
  rw [pqosCorePoll_failed_baselines h]
  have hold : s.group.values.baselines = ⟨s.group.values.mbmLocal, s.group.values.mbmTotal,
    s.group.values.baselines.ipc, s.group.values.llcMisses⟩ := rfl
  rw [hold, Baselines.mk.injEq, getD_join_map, getD_join_map, getD_join]
  constructor
  · rintro ⟨hloc, htot, hipc, -⟩
    exact ⟨fun k => by cases k <;> assumption, hipc⟩
  · rintro ⟨hmbm, hipc⟩
    exact ⟨hmbm .local, hmbm .total, hipc, rfl⟩

/-- A poll of groups succeeds though a group's own poll fails, and leaves the group's baselines as
they were if and only if what was read before the failure showed what is stored. -/
theorem hwMonPoll_failed_iff {S : Groups σ} {i : Nat} {t : Polled σ}
    (h : (pqosCorePoll hw p g).run ⟨S.hw, S.group i⟩ = .error e t) :
    ∃ T, (hwMonPoll hw p [(i, g)]).run S = .ok ⟨⟩ T
      ∧ ((T.group i).values.baselines = (S.group i).values.baselines
        ↔ Unmoved hw g ⟨S.hw, S.group i⟩) := by
  have hpoll : (attempt (zoom (fun s : Groups σ => Polled.mk s.hw (s.group i))
      (fun t s => ⟨t.hw, Function.update s.group i t.group⟩) (pqosCorePoll hw p g)) :
      EStateM Err (Groups σ) (Except Err Unit)).run S
      = .ok (.error e) ⟨t.hw, Function.update S.group i t.group⟩ :=
    attempt_ok.2 (Or.inr ⟨e, rfl, zoom_error.2 ⟨t, h, rfl⟩⟩)
  have hrun : (hwMonPoll hw p [(i, g)]).run S
      = .ok ⟨⟩ ⟨t.hw, Function.update S.group i t.group⟩ := by
    unfold hwMonPoll
    rw [List.forM_eq_forM, List.forM_cons, List.forM_nil]
    exact (bind_of_ok (a := ⟨⟩) ((bind_of_ok hpoll).trans rfl)).trans rfl
  refine ⟨_, hrun, ?_⟩
  simp only [Function.update_self]
  exact pqosCorePoll_failed h

end Failure

/-! ## A machine -/

/-- The counter of an event under an RMID shows what it has counted, and an RMID without the event
an error. -/
structure Counting where
  sel : Word
  count : Nat → Nat → Option Nat

def countingHw : CounterHw Counting where
  read _ reg := do
    let s ← get
    if reg ≠ msrMonQmc then return 0
    match s.count (s.sel >>> 32).toNat (s.sel &&& 0xff#64).toNat with
    | none => return monQmcError
    | some c => return BitVec.ofNat 64 (c % 2 ^ 24)
  write _ reg val := modify fun s => if reg = msrMonEvtSel then { s with sel := val } else s
  readFd _ := throw ()
  stale _ := 0

def mbmPlatform : Platform :=
  smallPlatform
    [⟨true, .mon ⟨4, [⟨monEventLmemBw, 4, true, 65536⟩, ⟨monEventTmemBw, 4, true, 65536⟩]⟩⟩]

/-- Two clusters. -/
def mbmGroup (event : MonEvent) : MonData :=
  ⟨groupValidMarker, event, [⟨0, 0, 1⟩, ⟨1, 1, 2⟩], [0, 1]⟩

/-- The values of a group that was just started. -/
def startValues : PollValues := ⟨⟨0, 0, 0, 0, 0, 0, 0, 0, 0, 0, 0, 0, 0, none, 0, 0, 0⟩, false⟩

/-- Before poll `n` the local counters of RMIDs 1 and 2 stand at the two counts. -/
def localCounts (counts : Nat → List Nat) (n : Nat) : Counting :=
  ⟨0, fun rmid event => if event = 3 then (counts n)[rmid - 1]? else none⟩

/-- One of two counters wraps. -/
def oneWrap (n : Nat) : List Nat := if n = 0 then [2 ^ 24 - 2, 7] else [2 ^ 24 + 1, 9]

/-- Both counters wrap. -/
def twoWraps (n : Nat) : List Nat :=
  if n = 0 then [2 ^ 24 - 2, 2 ^ 24 - 2] else [2 ^ 24 + 1, 2 ^ 24 + 1]

theorem oneWrap_run : MbmRun countingHw mbmPlatform (mbmGroup monEventLmemBw) .local
    (localCounts oneWrap) startValues oneWrap 2 := by
  refine ⟨by decide +kernel, by decide +kernel, fun n hn hn' => ?_⟩
  obtain rfl : n = 0 := by omega
  exact .cons (by decide) (.cons (by decide) .nil)

theorem twoWraps_run : MbmRun countingHw mbmPlatform (mbmGroup monEventLmemBw) .local
    (localCounts twoWraps) startValues twoWraps 2 := by
  refine ⟨by decide +kernel, by decide +kernel, fun n hn hn' => ?_⟩
  obtain rfl : n = 0 := by omega
  exact .cons (by decide) (.cons (by decide) .nil)

/-- One wrap is made up for. -/
theorem polls_bandwidth_iff_oneWrap :
    (Mbm.local.delta (polls countingHw mbmPlatform (mbmGroup monEventLmemBw)
        (localCounts oneWrap) startValues 2).values).toNat
        = scaleFactor mbmPlatform monEventLmemBw * Counter.increment (oneWrap 0) (oneWrap 1)
      ↔ WrapsMadeUp (scaleFactor mbmPlatform monEventLmemBw) (oneWrap 0) (oneWrap 1) :=
  polls_bandwidth_iff oneWrap_run (n := 0) (by decide)

/-- Two counters that advance by 3 each, and wrap: the poll makes up for one of the wraps only. -/
theorem polls_bandwidth_twoWraps :
    ∃ h counts,
      MbmRun countingHw mbmPlatform (mbmGroup monEventLmemBw) .local h startValues counts 2
      ∧ (Mbm.local.delta (polls countingHw mbmPlatform (mbmGroup monEventLmemBw) h
          startValues 2).values).toNat
        ≠ scaleFactor mbmPlatform monEventLmemBw * Counter.increment (counts 0) (counts 1) :=
  ⟨localCounts twoWraps, twoWraps, twoWraps_run, by decide +kernel⟩

/-- Local and total bandwidth. -/
def mbmBoth : MonData := mbmGroup (monEventLmemBw ||| monEventTmemBw)

/-- The local counters of RMIDs 1 and 2 stand at `a` and `b`, and the total ones too if they can be
read. -/
def bothCounts (a b : Nat) (total : Bool) : Counting :=
  ⟨0, fun rmid event => if event = 3 ∨ event = 2 ∧ total then [a, b][rmid - 1]? else none⟩

/-- The values of the group after a poll that read both. -/
def polledValues : PollValues :=
  (final ((pqosCorePoll countingHw mbmPlatform mbmBoth).run
    ⟨bothCounts 4 5 true, startValues⟩)).group

theorem hwMonPoll_failed_iff_total :
    ∃ T, (hwMonPoll countingHw mbmPlatform [(0, mbmBoth)]).run
        ⟨bothCounts 6 8 false, fun _ => polledValues⟩ = .ok ⟨⟩ T
      ∧ ((T.group 0).values.baselines = polledValues.values.baselines
        ↔ Unmoved countingHw mbmBoth ⟨bothCounts 6 8 false, polledValues⟩) := by
  have hfail : failure ((pqosCorePoll countingHw mbmPlatform mbmBoth).run
      ⟨bothCounts 6 8 false, polledValues⟩) = some .error := by
    decide +kernel
  exact hwMonPoll_failed_iff (S := ⟨bothCounts 6 8 false, fun _ => polledValues⟩)
    (failure_eq_some.1 hfail)

/-- What the poll after the next one reports, when the one between them cannot read the total
bandwidth. -/
def pollAfterFailed : PollValues :=
  let failed := final ((hwMonPoll countingHw mbmPlatform [(0, mbmBoth)]).run
    ⟨bothCounts 6 8 false, fun _ => polledValues⟩)
  (final ((pqosCorePoll countingHw mbmPlatform mbmBoth).run
    ⟨bothCounts 10 10 true, failed.group 0⟩)).group

/-- A poll whose read of the total bandwidth fails has moved the baseline of the local one on. The
counters are at the same counts throughout, and the next deltas are not the same. -/
theorem hwMonPoll_moves_local :
    failure ((pqosCorePoll countingHw mbmPlatform mbmBoth).run
        ⟨bothCounts 6 8 false, polledValues⟩) = some .error
      ∧ ((final ((hwMonPoll countingHw mbmPlatform [(0, mbmBoth)]).run
          ⟨bothCounts 6 8 false, fun _ => polledValues⟩)).group 0).values.baselines
        ≠ polledValues.values.baselines
      ∧ pollAfterFailed.values.mbmLocalDelta = 6 * 65536
      ∧ pollAfterFailed.values.mbmTotalDelta = 11 * 65536 := by
  decide +kernel

end Pqos
