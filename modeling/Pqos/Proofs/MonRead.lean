import Pqos.Poll

/-!
# Values from a register that has none

The data register says with a bit whether its value is available. A read of it that is not is made
again, up to three times in all; and when none of the three was available, the last one's value
counts as read.
-/

namespace Pqos

open Prog

variable {σ : Type} (hw : CounterHw σ) {lcore rmid event n : Nat} {s t : σ} {v w : Word}

/-- A value of the data register with neither the error bit nor the unavailable bit set. -/
def QmcValid (v : Word) : Prop := v &&& monQmcError = 0 ∧ v &&& monQmcUnavailable = 0

/-- A value that is not available, and no error. -/
def QmcUnavailable (v : Word) : Prop := v &&& monQmcError = 0 ∧ v &&& monQmcUnavailable ≠ 0

instance (v : Word) : Decidable (QmcUnavailable v) := inferInstanceAs (Decidable (_ ∧ _))

/-- What the reads of the data register return, at most `n` of them: one is made as long as the one
before it returned a value that is not available. -/
def qmcReads (lcore : Nat) : Nat → σ → List Word
  | 0, _ => []
  | n + 1, s =>
    match (hw.read lcore msrMonQmc).run s with
    | .ok v t => v :: if QmcUnavailable v then qmcReads lcore n t else []
    | .error _ _ => []

/-- All of `n` reads return a value that is not available. -/
def NeverAvailable (lcore n : Nat) (s : σ) : Prop :=
  (qmcReads hw lcore n s).length = n ∧ ∀ v ∈ qmcReads hw lcore n s, QmcUnavailable v

variable {hw}

theorem qmcReads_ok (h : (hw.read lcore msrMonQmc).run s = .ok v t) :
    qmcReads hw lcore (n + 1) s = v :: if QmcUnavailable v then qmcReads hw lcore n t else [] := by
  rw [qmcReads, h]

theorem qmcReads_error {u : Unit} (h : (hw.read lcore msrMonQmc).run s = .error u t) :
    qmcReads hw lcore (n + 1) s = [] := by
  rw [qmcReads, h]

theorem neverAvailable_succ :
    NeverAvailable hw lcore (n + 1) s ↔ ∃ v t, (hw.read lcore msrMonQmc).run s = .ok v t
      ∧ QmcUnavailable v ∧ NeverAvailable hw lcore n t := by
  unfold NeverAvailable
  rcases h : (hw.read lcore msrMonQmc).run s with ⟨v, t⟩ | ⟨u, t⟩
  · rw [qmcReads_ok h]
    by_cases hv : QmcUnavailable v
    · simp [hv]
    · simp [hv]
  · simp [qmcReads_error h]

theorem hwRead_ok {reg : Nat} :
    (hwRead hw lcore reg).run s = .ok v t ↔ (hw.read lcore reg).run s = .ok v t :=
  mapError_ok

/-- What is returned was read without an error, and it was available or no read was. -/
theorem monReadQmc_ok (h : (monReadQmc hw lcore n).run s = .ok v t) :
    v ∈ qmcReads hw lcore (n + 1) s ∧ (QmcValid v ∨ NeverAvailable hw lcore (n + 1) s) := by
  induction n generalizing s with
  | zero =>
    unfold monReadQmc at h
    simp only [bind_ok, failIf_ok, hwRead_ok, not_not] at h
    obtain ⟨w, s₁, hread, _, s₂, ⟨herr, rfl⟩, h⟩ := h
    cases h
    refine ⟨by simp [qmcReads_ok hread], ?_⟩
    by_cases hv : v &&& monQmcUnavailable = 0
    · exact Or.inl ⟨herr, hv⟩
    · exact Or.inr (neverAvailable_succ.2 ⟨v, t, hread, ⟨herr, hv⟩, rfl, by simp [qmcReads]⟩)
  | succ n ih =>
    unfold monReadQmc at h
    simp only [bind_ok, failIf_ok, hwRead_ok, not_not] at h
    obtain ⟨w, s₁, hread, _, s₂, ⟨herr, rfl⟩, h⟩ := h
    rw [qmcReads_ok hread]
    split_ifs at h with hw'
    · obtain ⟨hmem, hv⟩ := ih h
      have hun : QmcUnavailable w := ⟨herr, hw'⟩
      rw [if_pos hun]
      refine ⟨List.mem_cons_of_mem w hmem, hv.imp_right fun hnever => ?_⟩
      exact neverAvailable_succ.2 ⟨w, s₂, hread, hun, hnever⟩
    · cases h
      exact ⟨List.mem_cons_self, Or.inl ⟨herr, not_not.1 hw'⟩⟩

/-- When no read is available, the last one counts all the same. -/
theorem monReadQmc_never (h : NeverAvailable hw lcore (n + 1) s) :
    ∃ v t, (monReadQmc hw lcore n).run s = .ok v t := by
  induction n generalizing s with
  | zero =>
    obtain ⟨v, t, hread, hv, -⟩ := neverAvailable_succ.1 h
    refine ⟨v, t, ?_⟩
    unfold monReadQmc
    rw [bind_of_ok (hwRead_ok.2 hread), bind_of_ok (a := ()) (failIf_ok.2 ⟨not_not.2 hv.1, rfl⟩)]
    rfl
  | succ n ih =>
    obtain ⟨v, t, hread, hv, hnever⟩ := neverAvailable_succ.1 h
    obtain ⟨w, u, hrun⟩ := ih hnever
    refine ⟨w, u, ?_⟩
    unfold monReadQmc
    rw [bind_of_ok (hwRead_ok.2 hread), bind_of_ok (a := ()) (failIf_ok.2 ⟨not_not.2 hv.1, rfl⟩)]
    dsimp only
    rw [if_pos hv.2]
    exact hrun

variable (hw)

/-- A value that `monRead` returns is the data of a valid value that it read. -/
def ReadsValid (lcore rmid event : Nat) (s : σ) : Prop :=
  ∀ s' v t, (hw.write lcore msrMonEvtSel (evtSel rmid event)).run s = .ok () s' →
    (monRead hw lcore rmid event).run s = .ok v t →
    ∃ w ∈ qmcReads hw lcore 3 s', QmcValid w ∧ v = w &&& monQmcDataMask

variable {hw}

theorem monRead_run {s' : σ}
    (h : (hw.write lcore msrMonEvtSel (evtSel rmid event)).run s = .ok () s') :
    (monRead hw lcore rmid event).run s
      = ((· &&& monQmcDataMask) <$> monReadQmc hw lcore 2).run s' := by
  unfold monRead
  rw [bind_of_ok (mapError_ok.2 h), map_eq_pure_bind]

/-- The exception: three reads in a row none of which is available. -/
theorem readsValid_iff : ReadsValid hw lcore rmid event s ↔
    ∀ s', (hw.write lcore msrMonEvtSel (evtSel rmid event)).run s = .ok () s' →
      ¬ NeverAvailable hw lcore 3 s' := by
  constructor
  · intro h s' hs' hnever
    obtain ⟨v, t, hrun⟩ := monReadQmc_never hnever
    have hread : (monRead hw lcore rmid event).run s = .ok (v &&& monQmcDataMask) t := by
      rw [monRead_run hs']
      exact map_ok.2 ⟨v, hrun, rfl⟩
    obtain ⟨w, hw, hvalid, -⟩ := h s' _ t hs' hread
    exact (hnever.2 w hw).2 hvalid.2
  · intro h s' v t hs' hread
    rw [monRead_run hs', map_ok] at hread
    obtain ⟨w, hrun, rfl⟩ := hread
    obtain ⟨hmem, hvalid | hnever⟩ := monReadQmc_ok hrun
    · exact ⟨w, hmem, hvalid, rfl⟩
    · exact absurd hnever (h s' hs')

/-- A data register that never has a value, with a 5 in its data. -/
def unavailableHw : CounterHw Unit where
  read _ _ := pure (monQmcUnavailable ||| 5)
  write _ _ _ := pure ()
  readFd _ := pure 0
  stale _ := 0

theorem unavailableHw_never : ∀ n, NeverAvailable unavailableHw lcore n ()
  | 0 => ⟨rfl, by simp [qmcReads]⟩
  | n + 1 => neverAvailable_succ.2
      ⟨monQmcUnavailable ||| 5, (), rfl, by decide +kernel, unavailableHw_never n⟩

theorem not_readsValid : ¬ ReadsValid unavailableHw 0 1 1 () := by
  intro h
  have hread : value ((monRead unavailableHw 0 1 1).run ()) = some 5 := by decide +kernel
  have hwrite : (unavailableHw.write 0 msrMonEvtSel (evtSel 1 1)).run () = .ok () () := rfl
  obtain ⟨t, hrun⟩ := value_eq_some.1 hread
  obtain ⟨w, hmem, hvalid, _⟩ := h () 5 t hwrite hrun
  exact ((unavailableHw_never 3).2 w hmem).2 hvalid.2

end Pqos
