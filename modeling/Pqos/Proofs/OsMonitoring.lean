import Pqos.OsMonitoring
import Pqos.Lib.Ledger

/-!
# The descriptors of a group

A group's counters are requested one after another, and the event that fails is undone with those
before it. What a start opens it hands to the group's arrays, an array at a time and when the array
is full, and what the arrays hold is what a stop closes.
-/

namespace Pqos

open Prog Ledger

/-- The descriptors that calls of the kernel open and close. -/
def fdBook : Book PerfCall Nat where
  opens
    | .opened _ _ fd => some fd
    | _ => none
  closes
    | .closed fd => some fd
    | _ => none

/-! ## Requests -/

section Requests

variable (k : PerfKernel)

/-- The kernel grants `n` requests, the first of which has the number `first`. -/
def Grants (first n : Nat) : Prop := ∀ i < n, (k.grant (first + i)).isSome = true

variable {k} {first i m n : Nat} {l l₁ l₂ : List PerfCall} {fds fds' : List Nat}

theorem grants_zero : Grants k first 0 := fun _ hi => absurd hi (Nat.not_lt_zero _)

theorem grants_add : Grants k first (m + n) ↔ Grants k first m ∧ Grants k (first + m) n := by
  constructor
  · intro h
    refine ⟨fun i hi => h i (by omega), fun i hi => ?_⟩
    rw [Nat.add_assoc]
    exact h (m + i) (by omega)
  · rintro ⟨hm, hn⟩ i hi
    by_cases him : i < m
    · exact hm i him
    · have := hn (i - m) (by omega)
      rwa [show first + m + (i - m) = first + i by omega] at this

/-- From one state of the calls to another, `n` requests were granted with these descriptors. -/
structure Asked (k : PerfKernel) (l l' : List PerfCall) (n : Nat) (fds : List Nat) : Prop where
  granted : Grants k (requests l) n
  requests : requests l' = requests l + n
  book : Between fdBook l l' fds []
  length : fds.length = n

/-- After `i` requests that were granted, one was refused. -/
structure Refused (k : PerfKernel) (l l' : List PerfCall) (i : Nat) (fds : List Nat) : Prop where
  granted : Grants k (requests l) i
  refused : k.grant (requests l + i) = none
  book : Between fdBook l l' fds []
  length : fds.length = i

theorem Asked.nil (k : PerfKernel) (l : List PerfCall) : Asked k l l 0 [] :=
  ⟨grants_zero, rfl, Between.refl _ _, rfl⟩

theorem Asked.trans (h : Asked k l l₁ m fds) (h' : Asked k l₁ l₂ n fds') :
    Asked k l l₂ (m + n) (fds ++ fds') where
  granted := grants_add.2 ⟨h.granted, h.requests ▸ h'.granted⟩
  requests := by rw [h'.requests, h.requests, Nat.add_assoc]
  book := h.book.trans h'.book
  length := by rw [List.length_append, h.length, h'.length]

theorem Asked.refused (h : Asked k l l₁ m fds) (h' : Refused k l₁ l₂ i fds') :
    Refused k l l₂ (m + i) (fds ++ fds') where
  granted := grants_add.2 ⟨h.granted, h.requests ▸ h'.granted⟩
  refused := by rw [← Nat.add_assoc, ← h.requests, h'.refused]
  book := h.book.trans h'.book
  length := by rw [List.length_append, h.length, h'.length]

/-- The refused request is the first one if and only if nothing was opened before. -/
theorem Refused.first_iff (h : Refused k l l₁ i fds) :
    k.grant (requests l) = none ↔ fds = [] := by
  rw [← List.length_eq_zero_iff, h.length]
  constructor
  · intro hnone
    by_contra hi
    have := h.granted 0 (Nat.pos_of_ne_zero hi)
    rw [Nat.add_zero, hnone] at this
    cases this
  · rintro rfl
    exact h.refused

theorem Refused.not_grants (h : Refused k l l₁ i fds) (hi : i < n) :
    ¬ Grants k (requests l) n := by
  intro hn
  have := hn i hi
  rw [h.refused] at this
  cases this

end Requests

/-! ## Starting counters -/

section Start

variable {k : PerfKernel} {g : OsGroup} {ctr : PerfCtr} {target : PerfTarget} {s t : OsMon}
  {e : Err} {u : Unit}

theorem perfSetupCounter_run : (perfSetupCounter k ctr target).run s
    = match k.grant (requests s.calls) with
      | none => .error .error (s.call (.refused ctr target))
      | some fd => .ok fd (s.call (.opened ctr target fd)) := by
  unfold perfSetupCounter
  rw [get_bind]
  cases k.grant (requests s.calls) <;> rfl

theorem perfSetupCounter_ok {fd : Nat} (h : (perfSetupCounter k ctr target).run s = .ok fd t) :
    Asked k s.calls t.calls 1 [fd] ∧ t.fds = s.fds := by
  rw [perfSetupCounter_run] at h
  cases hg : k.grant (requests s.calls) with
  | none => simp [hg] at h
  | some fd' =>
    rw [hg] at h
    cases h
    refine ⟨⟨fun i hi => ?_, ?_, between_entry _ _, rfl⟩, rfl⟩
    · obtain rfl : i = 0 := by omega
      rw [Nat.add_zero, hg]
      rfl
    · exact List.countP_append

theorem perfSetupCounter_error (h : (perfSetupCounter k ctr target).run s = .error e t) :
    Refused k s.calls t.calls 0 [] ∧ t.fds = s.fds := by
  rw [perfSetupCounter_run] at h
  cases hg : k.grant (requests s.calls) with
  | none =>
    rw [hg] at h
    cases h
    exact ⟨⟨grants_zero, hg, between_entry _ _, rfl⟩, rfl⟩
  | some fd => simp [hg] at h

theorem setupAll_ok : ∀ {targets : List PerfTarget} {s : OsMon} {fds : List Nat},
    (targets.mapM (perfSetupCounter k ctr)).run s = .ok fds t →
      Asked k s.calls t.calls targets.length fds ∧ t.fds = s.fds
  | [], s, fds, h => by
    rw [List.mapM_nil] at h
    cases h
    exact ⟨.nil _ _, rfl⟩
  | target :: targets, s, fds, h => by
    rw [List.mapM_cons] at h
    simp only [bind_ok] at h
    obtain ⟨fd, s₁, hfd, fds', s₂, hrest, hret⟩ := h
    cases hret
    obtain ⟨hask, hsame⟩ := perfSetupCounter_ok hfd
    obtain ⟨hask', hsame'⟩ := setupAll_ok hrest
    refine ⟨?_, hsame'.trans hsame⟩
    rw [List.length_cons, Nat.add_comm]
    exact hask.trans hask'

theorem setupAll_error : ∀ {targets : List PerfTarget} {s : OsMon},
    (targets.mapM (perfSetupCounter k ctr)).run s = .error e t →
      (∃ i < targets.length, ∃ fds, Refused k s.calls t.calls i fds) ∧ t.fds = s.fds
  | [], s, h => by
    rw [List.mapM_nil] at h
    cases h
  | target :: targets, s, h => by
    rw [List.mapM_cons] at h
    simp only [bind_error] at h
    rcases h with hfd | ⟨fd, s₁, hfd, hrest | ⟨fds, s₂, -, hret⟩⟩
    · obtain ⟨href, hsame⟩ := perfSetupCounter_error hfd
      exact ⟨⟨0, Nat.succ_pos _, _, href⟩, hsame⟩
    · obtain ⟨hask, hsame⟩ := perfSetupCounter_ok hfd
      obtain ⟨⟨i, hi, fds, href⟩, hsame'⟩ := setupAll_error hrest
      refine ⟨⟨1 + i, ?_, _, hask.refused href⟩, hsame'.trans hsame⟩
      rw [List.length_cons]
      omega
    · cases hret

theorem startPerfCounters_ok (h : (startPerfCounters k g ctr).run s = .ok u t) :
    Asked k s.calls t.calls g.targets.length (t.fds ctr)
      ∧ ∀ c, c ≠ ctr → t.fds c = s.fds c := by
  unfold startPerfCounters at h
  simp only [bind_ok, failIf_ok] at h
  obtain ⟨_, s₁, ⟨-, rfl⟩, fds, s₂, hall, ht⟩ := h
  cases ht
  obtain ⟨hask, hsame⟩ := setupAll_ok hall
  refine ⟨?_, fun c hc => ?_⟩
  · simpa using hask
  · simp [Function.update_of_ne hc, hsame]

theorem startPerfCounters_error (hg : g.targets ≠ [])
    (h : (startPerfCounters k g ctr).run s = .error e t) :
    (∃ i < g.targets.length, ∃ fds, Refused k s.calls t.calls i fds) ∧ t.fds = s.fds := by
  unfold startPerfCounters at h
  simp only [bind_error, failIf_error, failIf_ok] at h
  rcases h with ⟨hnil, -⟩ | ⟨_, s₁, ⟨-, rfl⟩, hall | ⟨_, _, _, ht⟩⟩
  · exact absurd hnil hg
  · exact setupAll_error hall
  · cases ht

theorem startCtrs_ok : ∀ {ctrs : List PerfCtr} {s : OsMon}, ctrs.Nodup →
    (ctrs.forM (startPerfCounters k g)).run s = .ok u t →
      Asked k s.calls t.calls (ctrs.length * g.targets.length) (ctrs.flatMap t.fds)
        ∧ ∀ c, c ∉ ctrs → t.fds c = s.fds c
  | [], s, _, h => by
    rw [List.forM_eq_forM, List.forM_nil] at h
    cases h
    rw [List.length_nil, Nat.zero_mul]
    exact ⟨.nil _ _, fun _ _ => rfl⟩
  | ctr :: ctrs, s, hnd, h => by
    rw [List.forM_eq_forM, List.forM_cons, bind_ok] at h
    obtain ⟨_, s₁, hctr, hrest⟩ := h
    obtain ⟨hnot, hnd⟩ := List.nodup_cons.1 hnd
    obtain ⟨hask, hsame⟩ := startPerfCounters_ok hctr
    obtain ⟨hask', hsame'⟩ := startCtrs_ok hnd hrest
    refine ⟨?_, fun c hc => ?_⟩
    · rw [List.flatMap_cons, List.length_cons, Nat.succ_mul, Nat.add_comm, hsame' ctr hnot]
      exact hask.trans hask'
    · rw [List.mem_cons, not_or] at hc
      rw [hsame' c hc.2, hsame c hc.1]

theorem startCtrs_error (hg : g.targets ≠ []) : ∀ {ctrs : List PerfCtr} {s : OsMon}, ctrs.Nodup →
    (ctrs.forM (startPerfCounters k g)).run s = .error e t →
      (∃ i < ctrs.length * g.targets.length, ∃ fds, Refused k s.calls t.calls i fds)
        ∧ ∀ c, c ∉ ctrs → t.fds c = s.fds c
  | [], s, _, h => by
    rw [List.forM_eq_forM, List.forM_nil] at h
    cases h
  | ctr :: ctrs, s, hnd, h => by
    rw [List.forM_eq_forM, List.forM_cons, bind_error] at h
    obtain ⟨hnot, hnd⟩ := List.nodup_cons.1 hnd
    rw [List.length_cons, Nat.succ_mul]
    rcases h with hctr | ⟨_, s₁, hctr, hrest⟩
    · obtain ⟨⟨i, hi, fds, href⟩, hsame⟩ := startPerfCounters_error hg hctr
      exact ⟨⟨i, by omega, fds, href⟩, fun c _ => by rw [hsame]⟩
    · obtain ⟨hask, hsame⟩ := startPerfCounters_ok hctr
      obtain ⟨⟨i, hi, fds, href⟩, hsame'⟩ := startCtrs_error hg hnd hrest
      refine ⟨⟨_, by omega, _, hask.refused href⟩, fun c hc => ?_⟩
      rw [List.mem_cons, not_or] at hc
      rw [hsame' c hc.2, hsame c hc.1]

end Start

/-! ## Stopping counters -/

section Stop

variable {g : OsGroup} {ctr : PerfCtr} {s : OsMon}

theorem shutdownAll_run : ∀ (fds : List Nat) (s : OsMon), ∃ t,
    (fds.forM perfShutdownCounter).run s = .ok ⟨⟩ t ∧ Between fdBook s.calls t.calls [] fds
      ∧ t.fds = s.fds
  | [], s => ⟨s, rfl, Between.refl _ _, rfl⟩
  | fd :: fds, s => by
    obtain ⟨t, hrun, hbook, hsame⟩ := shutdownAll_run fds (s.call (.closed fd))
    refine ⟨t, ?_, (between_entry s.calls (.closed fd)).trans hbook, hsame⟩
    rw [List.forM_eq_forM, List.forM_cons]
    exact hrun

theorem stopPerfCounters_run (hg : g.targets ≠ []) (ctr : PerfCtr) (s : OsMon) : ∃ t,
    (stopPerfCounters g ctr).run s = .ok ⟨⟩ t ∧ Between fdBook s.calls t.calls [] (s.fds ctr)
      ∧ ∀ c, c ≠ ctr → t.fds c = s.fds c := by
  obtain ⟨t, hrun, hbook, hsame⟩ := shutdownAll_run (s.fds ctr) s
  refine ⟨{ t with fds := Function.update t.fds ctr [] }, ?_, hbook, fun c hc => ?_⟩
  · unfold stopPerfCounters
    rw [bind_of_ok (failIf_ok (u := ()).2 ⟨hg, rfl⟩), get_bind, bind_of_ok hrun]
    rfl
  · simp [Function.update_of_ne hc, hsame]

theorem stopCtrs_run (hg : g.targets ≠ []) : ∀ (ctrs : List PerfCtr) (s : OsMon), ctrs.Nodup →
    ∃ t, (ctrs.forM (stopPerfCounters g)).run s = .ok ⟨⟩ t
      ∧ Between fdBook s.calls t.calls [] (ctrs.flatMap s.fds) ∧ ∀ c, c ∉ ctrs → t.fds c = s.fds c
  | [], s, _ => ⟨s, rfl, Between.refl _ _, fun _ _ => rfl⟩
  | ctr :: ctrs, s, hnd => by
    obtain ⟨hnot, hnd⟩ := List.nodup_cons.1 hnd
    obtain ⟨s₁, hctr, hbook, hsame⟩ := stopPerfCounters_run hg ctr s
    obtain ⟨t, hrest, hbook', hsame'⟩ := stopCtrs_run hg ctrs s₁ hnd
    have hheld : ctrs.flatMap s₁.fds = ctrs.flatMap s.fds :=
      List.flatMap_congr fun c hc => hsame c fun heq => hnot (heq ▸ hc)
    refine ⟨t, ?_, ?_, fun c hc => ?_⟩
    · rw [List.forM_eq_forM, List.forM_cons, bind_of_ok hctr]
      exact hrest
    · rw [List.flatMap_cons, ← hheld]
      exact hbook.trans hbook'
    · rw [List.mem_cons, not_or] at hc
      rw [hsame' c hc.2, hsame c hc.1]

end Stop

/-! ## The events -/

section Table

/-- The bits of the events. -/
def maskOf (evs : List OsEvent) : MonEvent := evs.foldr (fun e evts => e.event ||| evts) 0

/-- The counters that come with those of the events that a mask has. -/
def ctrsOf (evts : MonEvent) (evs : List OsEvent) : List PerfCtr :=
  evs.flatMap fun e => if evts &&& e.event = 0 then [] else e.ctrs evts

variable {e : OsEvent} {pre post evs evs' : List OsEvent} {evts : MonEvent}

theorem maskOf_append (evs evs' : List OsEvent) :
    maskOf (evs ++ evs') = maskOf evs ||| maskOf evs' := by
  induction evs with
  | nil => exact (BitVec.zero_or).symm
  | cons e evs ih =>
    change e.event ||| maskOf (evs ++ evs') = e.event ||| maskOf evs ||| maskOf evs'
    rw [ih, BitVec.or_assoc]

theorem ctrsOf_append (evts : MonEvent) (evs evs' : List OsEvent) :
    ctrsOf evts (evs ++ evs') = ctrsOf evts evs ++ ctrsOf evts evs' := List.flatMap_append

theorem ctrsOf_singleton (evts : MonEvent) (e : OsEvent) :
    ctrsOf evts [e] = if evts &&& e.event = 0 then [] else e.ctrs evts := List.append_nil _

theorem osEvents_bit (he : e ∈ osEvents) : ∃ i, e.event = BitVec.twoPow 32 i := by
  simp only [osEvents, List.mem_cons, List.not_mem_nil, or_false] at he
  rcases he with rfl | rfl | rfl | rfl | rfl | rfl
  exacts [⟨0, by decide⟩, ⟨1, by decide⟩, ⟨2, by decide⟩, ⟨3, by decide⟩, ⟨15, by decide⟩,
    ⟨14, by decide⟩]

/-- An event is one bit, which a mask has or has not. -/
theorem and_event (he : e ∈ osEvents) (h : evts &&& e.event ≠ 0) : evts &&& e.event = e.event := by
  obtain ⟨i, hi⟩ := osEvents_bit he
  rw [hi, BitVec.and_twoPow] at h ⊢
  split_ifs at h ⊢
  · rfl
  · exact absurd rfl h

theorem osEvents_apart : osEvents.Pairwise fun e e' => e.event &&& e'.event = 0 := by decide

theorem maskOf_and (he : e ∈ evs) : maskOf evs &&& e.event = e.event := by
  obtain ⟨p, q, rfl⟩ := List.append_of_mem he
  rw [maskOf_append]
  change (maskOf p ||| (e.event ||| maskOf q)) &&& e.event = e.event
  ext i
  simp only [BitVec.getElem_and, BitVec.getElem_or]
  cases e.event[i] <;> simp

theorem maskOf_apart (h : ∀ e' ∈ evs, e'.event &&& e.event = 0) : maskOf evs &&& e.event = 0 := by
  induction evs with
  | nil => exact BitVec.zero_and
  | cons e' evs ih =>
    change (e'.event ||| maskOf evs) &&& e.event = 0
    rw [BitVec.and_or_distrib_right, h e' List.mem_cons_self,
      ih fun e'' he => h e'' (List.mem_cons_of_mem e' he)]
    exact BitVec.or_self

theorem and_maskOf_eq_zero : evts &&& maskOf evs = 0 ↔ ∀ e ∈ evs, evts &&& e.event = 0 := by
  induction evs with
  | nil => simp [maskOf]
  | cons e evs ih =>
    change evts &&& (e.event ||| maskOf evs) = 0 ↔ _
    rw [BitVec.and_or_distrib_left, List.forall_mem_cons, ← ih]
    exact BitVec.or_eq_zero_iff

theorem started_and_mem (he : e ∈ pre) (evts : MonEvent) :
    evts &&& maskOf pre &&& e.event = evts &&& e.event := by
  rw [BitVec.and_assoc, maskOf_and he]

theorem started_and_later (hsplit : osEvents = pre ++ post) (he : e ∈ post) (evts : MonEvent) :
    evts &&& maskOf pre &&& e.event = 0 := by
  have hapart := osEvents_apart
  rw [hsplit, List.pairwise_append] at hapart
  rw [BitVec.and_assoc, maskOf_apart fun e' he' => hapart.2.2 e' he' e he]
  exact BitVec.and_zero

/-- Remote bandwidth comes after the events whose counters it shares. -/
theorem osEvents_remote : osEvents.Pairwise fun e e' => e.event = monEventRmemBw →
    e'.event ≠ monEventLmemBw ∧ e'.event ≠ monEventTmemBw := by
  decide

theorem shared_mem (hsplit : osEvents = pre ++ osRmemBw :: post) :
    osLmemBw ∈ pre ∧ osTmemBw ∈ pre := by
  have hlater := osEvents_remote
  rw [hsplit, List.pairwise_append, List.pairwise_cons] at hlater
  have key : ∀ e ∈ osEvents, e.event = monEventLmemBw ∨ e.event = monEventTmemBw → e ∈ pre := by
    intro e he hevent
    rw [hsplit, List.mem_append, List.mem_cons] at he
    rcases he with he | rfl | he
    · exact he
    · exact absurd hevent (by decide)
    · have := hlater.2.1.1 e he rfl
      tauto
  exact ⟨key _ (by simp [osEvents]) (Or.inl rfl), key _ (by simp [osEvents]) (Or.inr rfl)⟩

/-- All events but remote bandwidth have counters that are theirs. -/
theorem osEvents_ctrs (he : e ∈ osEvents) :
    e = osRmemBw ∨ ∃ ctrs, ctrs ≠ [] ∧ ∀ evts, e.ctrs evts = ctrs := by
  simp only [osEvents, List.mem_cons, List.not_mem_nil, or_false] at he
  rcases he with rfl | rfl | rfl | rfl | rfl | rfl
  case inr.inr.inr.inl => exact Or.inl rfl
  all_goals exact Or.inr ⟨_, List.cons_ne_nil _ _, fun _ => rfl⟩

/-- The counters that come with an event are settled when the events before it have started. -/
theorem ctrs_started (hsplit : osEvents = pre ++ e :: post) (evts : MonEvent) :
    e.ctrs (evts &&& maskOf pre) = e.ctrs evts := by
  rcases osEvents_ctrs (e := e) (by simp [hsplit]) with rfl | ⟨ctrs, -, hctrs⟩
  · obtain ⟨hloc, htot⟩ := shared_mem hsplit
    have hloc' := started_and_mem hloc evts
    have htot' := started_and_mem htot evts
    change _ &&& monEventLmemBw = evts &&& monEventLmemBw at hloc'
    change _ &&& monEventTmemBw = evts &&& monEventTmemBw at htot'
    simp only [osRmemBw, hloc', htot']
  · rw [hctrs, hctrs]

/-- What stops the events that a start got to is what it started. -/
theorem ctrsOf_started (hsplit : osEvents = pre ++ post) (evts : MonEvent) :
    ctrsOf (evts &&& maskOf pre) osEvents = ctrsOf evts pre := by
  have hpost : ctrsOf (evts &&& maskOf pre) post = [] := by
    rw [ctrsOf, List.flatMap_eq_nil_iff]
    exact fun e he => if_pos (started_and_later hsplit he evts)
  have hpre : ctrsOf (evts &&& maskOf pre) pre = ctrsOf evts pre := by
    refine List.flatMap_congr fun e he => ?_
    obtain ⟨p, q, rfl⟩ := List.append_of_mem he
    have hsplit' : osEvents = p ++ e :: (q ++ post) := by simp [hsplit]
    have hcut : evts &&& maskOf (p ++ e :: q) &&& maskOf p = evts &&& maskOf p := by
      rw [maskOf_append, BitVec.and_assoc]
      ext i
      simp only [BitVec.getElem_and, BitVec.getElem_or]
      cases (maskOf p)[i] <;> simp
    rw [started_and_mem he, ← ctrs_started hsplit', hcut, ctrs_started hsplit']
  conv_lhs => rw [hsplit]
  rw [ctrsOf_append, hpre, hpost, List.append_nil]

theorem ctrsOf_nodup (evts : MonEvent) : (ctrsOf evts osEvents).Nodup := by
  simp only [ctrsOf, osEvents, List.flatMap_cons, List.flatMap_nil, osL3Occup, osLmemBw, osTmemBw,
    osRmemBw, osIpc, osLlcMiss, OsEvent.ofCtr]
  split_ifs <;> decide

/-- No counter comes with events of which a mask has none, and with no others. -/
theorem ctrsOf_eq_nil (hsplit : osEvents = pre ++ post) :
    ctrsOf evts pre = [] ↔ evts &&& maskOf pre = 0 := by
  rw [and_maskOf_eq_zero, ctrsOf, List.flatMap_eq_nil_iff]
  refine ⟨fun h e he => ?_, fun h e he => if_pos (h e he)⟩
  have hlacks : ∀ e ∈ pre, e.ctrs evts ≠ [] → evts &&& e.event = 0 := by
    intro e he hctrs
    by_contra hhas
    exact hctrs (by rw [← h e he, if_neg hhas])
  refine hlacks e he fun hctrs => ?_
  rcases osEvents_ctrs (e := e) (by simp [hsplit, he]) with rfl | ⟨ctrs, hne, hall⟩
  · -- the counters that remote bandwidth does without come with the events it shares them with
    obtain ⟨p, q, rfl⟩ := List.append_of_mem he
    have hsplit' : osEvents = p ++ osRmemBw :: (q ++ post) := by simp [hsplit]
    have hloc := hlacks osLmemBw (List.mem_append_left _ (shared_mem hsplit').1)
      (List.cons_ne_nil _ _)
    change evts &&& monEventLmemBw = 0 at hloc
    simp [osRmemBw, hloc] at hctrs
  · exact hne (by rw [← hall evts, hctrs])

end Table

/-! ## Starting and stopping events -/

section Run

variable (k : PerfKernel) (g : OsGroup)

/-- How many counters the group asks for with a part of the events. -/
def asks (evs : List OsEvent) : Nat := (ctrsOf g.event evs).length * g.targets.length

/-- The start is through with a part of the events. -/
structure Begun (s : OsMon) (pre : List OsEvent) (startedEvts : MonEvent) (t : OsMon) : Prop where
  started : startedEvts = g.event &&& maskOf pre
  supported : ∀ e ∈ pre, g.event &&& e.event ≠ 0 → e.supported k = true
  asked : Asked k s.calls t.calls (asks g pre) ((ctrsOf g.event pre).flatMap t.fds)

variable {k g} {s s₁ t : OsMon} {pre post : List OsEvent} {e : OsEvent}
  {startedEvts startedEvts' : MonEvent}

theorem asks_append (evs evs' : List OsEvent) :
    asks g (evs ++ evs') = asks g evs + asks g evs' := by
  rw [asks, ctrsOf_append, List.length_append, Nat.add_mul]
  rfl

theorem ctrs_disjoint (hsplit : osEvents = pre ++ e :: post) (he : g.event &&& e.event ≠ 0) :
    (e.ctrs g.event).Nodup ∧ ∀ c ∈ ctrsOf g.event pre, c ∉ e.ctrs g.event := by
  have hnd := ctrsOf_nodup g.event
  have hone : ctrsOf g.event [e] = e.ctrs g.event := by rw [ctrsOf_singleton, if_neg he]
  rw [hsplit, List.append_cons, ctrsOf_append, ctrsOf_append, hone, List.append_assoc,
    List.nodup_append] at hnd
  refine ⟨(List.nodup_append.1 hnd.2.1).1, fun c hc hc' => ?_⟩
  exact hnd.2.2 c hc c (List.mem_append_left _ hc') rfl

theorem startEvent_ok (hsplit : osEvents = pre ++ e :: post) (hpre : Begun k g s pre startedEvts s₁)
    (h : (startEvent k g startedEvts e).run s₁ = .ok startedEvts' t) :
    Begun k g s (pre ++ [e]) startedEvts' t := by
  obtain ⟨hstarted, hsup, hasked⟩ := hpre
  unfold startEvent at h
  by_cases he : g.event &&& e.event = 0
  · rw [if_pos he] at h
    cases h
    have hone : ctrsOf g.event [e] = [] := by rw [ctrsOf_singleton, if_pos he]
    refine ⟨?_, ?_, ?_⟩
    · rw [maskOf_append, BitVec.and_or_distrib_left, ← hstarted,
        show g.event &&& maskOf [e] = 0 from and_maskOf_eq_zero.2 (by simpa using he)]
      exact BitVec.or_zero.symm
    · exact List.forall_mem_append.2 ⟨hsup, List.forall_mem_singleton.2 fun hne => absurd he hne⟩
    · simpa [asks, ctrsOf_append, hone] using hasked
  · rw [if_neg he] at h
    simp only [bind_ok, failIf_ok, mapError_ok] at h
    obtain ⟨_, s₁, ⟨hs, rfl⟩, _, s₂, hrun, _, s₃, hreset, hret⟩ := h
    cases hreset
    cases hret
    have hctrs : e.ctrs startedEvts = e.ctrs g.event := by rw [hstarted, ctrs_started hsplit]
    obtain ⟨hnd, hdisj⟩ := ctrs_disjoint hsplit he
    rw [hctrs] at hrun
    obtain ⟨hask, hsame⟩ := startCtrs_ok hnd hrun
    have hone : ctrsOf g.event [e] = e.ctrs g.event := by rw [ctrsOf_singleton, if_neg he]
    refine ⟨?_, ?_, ?_⟩
    · rw [maskOf_append, BitVec.and_or_distrib_left, ← hstarted]
      change _ = startedEvts ||| g.event &&& (e.event ||| 0#32)
      rw [BitVec.or_zero, and_event (by simp [hsplit]) he]
    · exact List.forall_mem_append.2 ⟨hsup, List.forall_mem_singleton.2 fun _ => by simpa using hs⟩
    · have hkept : (ctrsOf g.event pre).flatMap s₂.fds = (ctrsOf g.event pre).flatMap s₁.fds :=
        List.flatMap_congr fun c hc => hsame c (hdisj c hc)
      rw [asks_append, ctrsOf_append, hone, List.flatMap_append, hkept, asks, asks, hone]
      exact hasked.trans hask

/-- Where an event fails: it is not supported, or one of its counters was refused. -/
theorem startEvent_error (hg : g.targets ≠ []) (hsplit : osEvents = pre ++ e :: post)
    (hpre : Begun k g s pre startedEvts s₁) {x : StartExit}
    (h : (startEvent k g startedEvts e).run s₁ = .error x t) :
    g.event &&& e.event ≠ 0
      ∧ ((e.supported k = false ∧ t = s₁
          ∧ x = if e.returns then .ret else .startEventError startedEvts)
        ∨ (e.supported k = true ∧ x = .startEventError startedEvts
          ∧ (∃ i < asks g [e], ∃ fds, Refused k s₁.calls t.calls i fds)
          ∧ ∀ c ∈ ctrsOf g.event pre, t.fds c = s₁.fds c)) := by
  unfold startEvent at h
  by_cases he : g.event &&& e.event = 0
  · rw [if_pos he] at h
    cases h
  refine ⟨he, ?_⟩
  rw [if_neg he] at h
  simp only [bind_error, failIf_error, failIf_ok, mapError_error] at h
  rcases h with ⟨hs, rfl, rfl⟩ | ⟨_, _, ⟨hs, rfl⟩,
    ⟨_, hrun, rfl⟩ | ⟨_, _, _, hreset | ⟨_, _, _, hret⟩⟩⟩
  · exact Or.inl ⟨hs, rfl, rfl⟩
  · have hctrs : e.ctrs startedEvts = e.ctrs g.event := by rw [hpre.started, ctrs_started hsplit]
    obtain ⟨hnd, hdisj⟩ := ctrs_disjoint hsplit he
    rw [hctrs] at hrun
    obtain ⟨href, hsame⟩ := startCtrs_error hg hnd hrun
    refine Or.inr ⟨by simpa using hs, rfl, ?_, fun c hc => hsame c (hdisj c hc)⟩
    rwa [asks, ctrsOf_singleton, if_neg he]
  · cases hreset
  · cases hret

theorem stopEvent_run (hg : g.targets ≠ []) {evts : MonEvent} (hnd : (ctrsOf evts [e]).Nodup)
    (stoppedEvts : MonEvent) (s : OsMon) : ∃ stoppedEvts' t,
    (stopEvent g evts stoppedEvts e).run s = .ok stoppedEvts' t
      ∧ Between fdBook s.calls t.calls [] ((ctrsOf evts [e]).flatMap s.fds)
      ∧ ∀ c, c ∉ ctrsOf evts [e] → t.fds c = s.fds c := by
  unfold stopEvent
  rw [ctrsOf_singleton] at hnd ⊢
  split_ifs at hnd ⊢ with he
  · exact ⟨_, s, rfl, Between.refl _ _, fun _ _ => rfl⟩
  · obtain ⟨t, hrun, hbook, hsame⟩ := stopCtrs_run hg _ s hnd
    refine ⟨stoppedEvts ||| e.event, t, ?_, hbook, hsame⟩
    rw [attempt_bind_of_ok ((tryAll_ok (u := ())).2 hrun)]
    rfl

/-- A stop closes what the arrays of its events hold. -/
theorem stopAll_run (hg : g.targets ≠ []) {evts : MonEvent} : ∀ (evs : List OsEvent)
    (stoppedEvts : MonEvent) (s : OsMon), (ctrsOf evts evs).Nodup → ∃ stoppedEvts' t,
    (evs.foldlM (stopEvent g evts) stoppedEvts).run s = .ok stoppedEvts' t
      ∧ Between fdBook s.calls t.calls [] ((ctrsOf evts evs).flatMap s.fds)
  | [], stoppedEvts, s, _ => ⟨stoppedEvts, s, rfl, Between.refl _ _⟩
  | e :: evs, stoppedEvts, s, hnd => by
    have hcons : ctrsOf evts (e :: evs) = ctrsOf evts [e] ++ ctrsOf evts evs :=
      ctrsOf_append evts [e] evs
    rw [hcons] at hnd ⊢
    obtain ⟨hnd₁, hnd₂, hdisj⟩ := List.nodup_append.1 hnd
    obtain ⟨stopped, s₁, hone, hbook, hsame⟩ := stopEvent_run hg hnd₁ stoppedEvts s
    obtain ⟨stopped', t, hrest, hbook'⟩ := stopAll_run hg evs stopped s₁ hnd₂
    have hheld : (ctrsOf evts evs).flatMap s₁.fds = (ctrsOf evts evs).flatMap s.fds :=
      List.flatMap_congr fun c hc => hsame c fun hc' => hdisj c hc' c hc rfl
    refine ⟨stopped', t, ?_, ?_⟩
    · rw [List.foldlM_cons, bind_of_ok hone]
      exact hrest
    · rw [List.flatMap_append, ← hheld]
      exact hbook.trans hbook'

theorem stopEvents_final (hg : g.targets ≠ []) (evts : MonEvent) (s : OsMon) :
    Between fdBook s.calls (final ((stopEvents g evts).run s)).calls []
      ((ctrsOf evts osEvents).flatMap s.fds) := by
  obtain ⟨stopped, t, hrun, hbook⟩ := stopAll_run hg osEvents 0 s (ctrsOf_nodup evts)
  unfold stopEvents
  rw [bind_of_ok hrun, failIf_run]
  split_ifs <;> exact hbook

theorem startPrefix_ok (hsplit : osEvents = pre ++ post)
    (h : (pre.foldlM (startEvent k g) 0).run s = .ok startedEvts t) :
    Begun k g s pre startedEvts t := by
  have hnil : Begun k g s [] 0 s := by
    refine ⟨BitVec.and_zero.symm, by simp, ?_⟩
    rw [asks, show (ctrsOf g.event []).length = 0 from rfl, Nat.zero_mul]
    exact .nil _ _
  refine foldlM_ok (Begun k g s) h hnil fun p e q started started' t t' hl hI hrun => ?_
  have hsplit' : osEvents = p ++ e :: (q ++ post) := by simp [hsplit, hl]
  exact startEvent_ok hsplit' hI hrun

theorem startEventError_run (startedEvts : MonEvent) (s : OsMon) :
    (startEventError g startedEvts).run s
      = .ok ⟨⟩ (if g.event = startedEvts then s else final ((stopEvents g startedEvts).run s)) := by
  unfold startEventError
  split_ifs
  · rfl
  · rw [EStateM.run_bind, attempt_run]
    rcases (stopEvents g startedEvts).run s with ⟨_, t⟩ | ⟨_, t⟩ <;> rfl

theorem startEvents_run : (startEvents k g).run s
    = match (osEvents.foldlM (startEvent k g) 0).run s with
      | .ok startedEvts t => (startEventError g startedEvts).run t
      | .error .ret t => .error .error t
      | .error (.startEventError startedEvts) t =>
        .error .error (final ((startEventError g startedEvts).run t)) := by
  unfold startEvents
  rw [EStateM.run_bind, attempt_run]
  rcases (osEvents.foldlM (startEvent k g) 0).run s with ⟨started, t⟩ | ⟨_ | started, t⟩
  · rfl
  · rfl
  · change (startEventError g started >>= _).run t = .error .error _
    rw [EStateM.run_bind, startEventError_run]
    rfl

end Run

/-! ## The account -/

section Account

variable (k : PerfKernel) (g : OsGroup)

/-- A start that fails closes whatever it opened; one that succeeds closes nothing, and the stop of
the group's events then closes whatever the start opened, and opens nothing. -/
def Accounted (s : OsMon) : Prop :=
  match (startEvents k g).run s with
  | .ok _ t => Returned fdBook s.calls t.calls (final ((stopEvents g g.event).run t)).calls
  | .error _ t => Balanced fdBook s.calls t.calls

/-- The kernel supports the events of the part that the group has, and grants the requests for
them, the first of which has the number `first`. -/
structure Startable (first : Nat) (evs : List OsEvent) : Prop where
  supported : ∀ e ∈ evs, g.event &&& e.event ≠ 0 → e.supported k = true
  granted : Grants k first (asks g evs)

/-- If `e` cannot be started, it is refused its very first request, or not supported and not
returned from, or not supported and the group's first event. -/
structure FailsClean (first : Nat) (pre : List OsEvent) (e : OsEvent) : Prop where
  unsupported : e.supported k = false → e.returns = true → g.event &&& maskOf pre = 0
  refused : e.supported k = true → ¬ Grants k (first + asks g pre) (asks g [e]) →
    k.grant (first + asks g pre) = none

/-- The group has neither cores nor tasks; or the first of its events that cannot be started fails
clean and, if all of them can be started, its mask has no bits but theirs, or none of theirs. -/
def AccountedWhen (first : Nat) : Prop :=
  g.targets = [] ∨
    ((∀ pre e post, osEvents = pre ++ e :: post → g.event &&& e.event ≠ 0 →
        Startable k g first pre → FailsClean k g first pre e)
      ∧ (Startable k g first osEvents →
        g.event &&& maskOf osEvents = g.event ∨ g.event &&& maskOf osEvents = 0))

variable {k g} {s s₁ t : OsMon} {pre post : List OsEvent} {e : OsEvent} {startedEvts : MonEvent}
  {first : Nat}

theorem Begun.startable (h : Begun k g s pre startedEvts t) :
    Startable k g (requests s.calls) pre := ⟨h.supported, h.asked.granted⟩

/-- The arrays hold something if and only if an event was started. -/
theorem Begun.held_iff (hg : g.targets ≠ []) (hsplit : osEvents = pre ++ post)
    (h : Begun k g s pre startedEvts t) :
    (ctrsOf g.event pre).flatMap t.fds = [] ↔ g.event &&& maskOf pre = 0 := by
  have hlen := h.asked.length
  rw [← List.length_eq_zero_iff, hlen, asks, Nat.mul_eq_zero, List.length_eq_zero_iff,
    List.length_eq_zero_iff, ctrsOf_eq_nil hsplit]
  exact or_iff_left hg

/-- What is started is not all that the group asks for, and is stopped. -/
theorem Begun.undone (hg : g.targets ≠ []) (hsplit : osEvents = pre ++ post)
    (h : Begun k g s pre startedEvts s₁) (hne : g.event ≠ startedEvts)
    (hkept : ∀ c ∈ ctrsOf g.event pre, t.fds c = s₁.fds c) :
    Between fdBook t.calls (final ((startEventError g startedEvts).run t)).calls []
      ((ctrsOf g.event pre).flatMap s₁.fds) := by
  rw [startEventError_run, if_neg hne]
  have hstop := stopEvents_final hg startedEvts t
  rw [h.started, ctrsOf_started hsplit, ← h.started] at hstop
  rwa [List.flatMap_congr hkept] at hstop

theorem startable_append {evs evs' : List OsEvent} : Startable k g first (evs ++ evs')
    ↔ Startable k g first evs ∧ Startable k g (first + asks g evs) evs' := by
  constructor
  · rintro ⟨hsup, hgr⟩
    obtain ⟨hsup, hsup'⟩ := List.forall_mem_append.1 hsup
    rw [asks_append, grants_add] at hgr
    exact ⟨⟨hsup, hgr.1⟩, ⟨hsup', hgr.2⟩⟩
  · rintro ⟨⟨hsup, hgr⟩, ⟨hsup', hgr'⟩⟩
    refine ⟨List.forall_mem_append.2 ⟨hsup, hsup'⟩, ?_⟩
    rw [asks_append]
    exact grants_add.2 ⟨hgr, hgr'⟩

theorem Startable.failsClean (he : g.event &&& e.event ≠ 0)
    (h : Startable k g first (pre ++ [e])) : FailsClean k g first pre e := by
  obtain ⟨-, hsup, hgr⟩ := startable_append.1 h
  refine ⟨fun hs => ?_, fun _ hno => absurd hgr hno⟩
  rw [hsup e List.mem_cons_self he] at hs
  cases hs

/-- It comes down to the first event that cannot be started. -/
theorem accountedWhen_iff (hg : g.targets ≠ []) (hsplit : osEvents = pre ++ e :: post)
    (he : g.event &&& e.event ≠ 0) (hpre : Startable k g first pre)
    (hfail : ¬ Startable k g first (pre ++ [e])) :
    AccountedWhen k g first ↔ FailsClean k g first pre e := by
  have hlong : ∀ q, ¬ Startable k g first (pre ++ e :: q) := fun q h =>
    hfail (startable_append.1 (List.append_cons pre e q ▸ h)).1
  constructor
  · rintro (hnil | ⟨hall, -⟩)
    · exact absurd hnil hg
    · exact hall pre e post hsplit he hpre
  · refine fun hclean => Or.inr ⟨fun pre' e' post' hsplit' he' hpre' => ?_, fun h => ?_⟩
    · rcases List.append_eq_append_iff.1 (hsplit.symm.trans hsplit') with
        ⟨_ | ⟨a, as⟩, rfl, heq⟩ | ⟨_ | ⟨a, as⟩, rfl, heq⟩
      · obtain ⟨rfl, -⟩ := List.cons.inj heq
        rwa [List.append_nil]
      · obtain ⟨rfl, -⟩ := List.cons.inj heq
        exact absurd hpre' (hlong as)
      · obtain ⟨rfl, -⟩ := List.cons.inj heq
        rwa [List.append_nil] at hclean
      · obtain ⟨rfl, -⟩ := List.cons.inj heq
        rw [List.append_cons] at hpre
        exact (startable_append.1 hpre).1.failsClean he'
    · rw [hsplit] at h
      exact absurd h (hlong post)

/-- A group without cores and tasks has nothing opened. -/
theorem noTargets_calls (hg : g.targets = []) :
    Keeps (fun s t : OsMon => t.calls = s.calls) (startEvents k g)
      ∧ ∀ evts, Keeps (fun s t : OsMon => t.calls = s.calls) (stopEvents g evts) := by
  have hR : Frame fun s t : OsMon => t.calls = s.calls := Frame.eq OsMon.calls
  have hstart : ∀ ctr, Keeps (fun s t : OsMon => t.calls = s.calls) (startPerfCounters k g ctr) :=
    fun ctr => keeps_failIf_bind hR fun hne => absurd hg hne
  have hstop : ∀ ctr, Keeps (fun s t : OsMon => t.calls = s.calls) (stopPerfCounters g ctr) :=
    fun ctr => keeps_failIf_bind hR fun hne => absurd hg hne
  have hstops : ∀ evts, Keeps (fun s t : OsMon => t.calls = s.calls) (stopEvents g evts) := by
    refine fun evts => Keeps.bind hR (Keeps.foldlM hR fun stopped e _ => ?_) fun _ =>
      Keeps.failIf hR _ _
    unfold stopEvent
    split_ifs
    · exact Keeps.pure hR _
    · exact Keeps.bind hR (Keeps.attempt (Keeps.tryAll hR fun c _ => hstop c)) fun _ =>
        Keeps.pure hR _
  have hlabel : ∀ started, Keeps (fun s t : OsMon => t.calls = s.calls)
      (startEventError g started) :=
    fun started => Keeps.unless hR _
      (Keeps.bind hR (Keeps.attempt (hstops started)) fun _ => Keeps.pure hR _)
  refine ⟨Keeps.bind hR (Keeps.attempt (Keeps.foldlM hR fun started e _ => ?_)) ?_, hstops⟩
  · unfold startEvent
    split_ifs
    · exact Keeps.pure hR _
    all_goals
      exact Keeps.bind hR (Keeps.failIf hR _ _) fun _ =>
        Keeps.bind hR (Keeps.mapError (Keeps.forM hR fun c _ => hstart c) _) fun _ =>
          Keeps.bind hR (fun s => rfl) fun _ => Keeps.pure hR _
  · rintro ((_ | started) | started)
    · exact Keeps.throw hR _
    · exact Keeps.bind hR (hlabel started) fun _ => Keeps.throw hR _
    · exact hlabel started

theorem accounted_of_noTargets (hg : g.targets = []) (s : OsMon) : Accounted k g s := by
  obtain ⟨hstart, hstop⟩ := noTargets_calls (k := k) hg
  unfold Accounted
  rcases hrun : (startEvents k g).run s with ⟨_, t⟩ | ⟨_, t⟩
  · have hs : t.calls = s.calls := hstart.of_ok hrun
    refine ⟨[], [], ?_, ?_, .refl _⟩
    · rw [hs]
      exact Between.refl _ _
    · rw [hstop g.event t]
      exact Between.refl _ _
  · have hs : t.calls = s.calls := hstart.of_error hrun
    change Balanced fdBook s.calls t.calls
    rw [hs]
    exact ⟨[], [], Between.refl _ _, .refl _⟩

/-- A start through all its events. -/
theorem accounted_of_begun (hg : g.targets ≠ [])
    (hrun : (osEvents.foldlM (startEvent k g) 0).run s = .ok startedEvts t) :
    Accounted k g s ↔ AccountedWhen k g (requests s.calls) := by
  have hall : osEvents = osEvents ++ [] := (List.append_nil _).symm
  have hbegun := startPrefix_ok hall hrun
  have hbook := hbegun.asked.book
  have hclean : ∀ pre e post, osEvents = pre ++ e :: post → g.event &&& e.event ≠ 0 →
      Startable k g (requests s.calls) pre → FailsClean k g (requests s.calls) pre e := by
    intro pre e post hsplit he _
    have hlong := hbegun.startable
    rw [hsplit, List.append_cons] at hlong
    exact (startable_append.1 hlong).1.failsClean he
  unfold Accounted
  rw [startEvents_run, hrun]
  simp only [startEventError_run]
  by_cases hevent : g.event = startedEvts
  · rw [if_pos hevent]
    refine iff_of_true ⟨_, _, hbook, stopEvents_final hg g.event t, .refl _⟩ (Or.inr ⟨hclean, ?_⟩)
    exact fun _ => Or.inl (hevent.trans hbegun.started).symm
  · rw [if_neg hevent]
    have hundone := hbegun.undone (t := t) hg hall hevent fun _ _ => rfl
    rw [startEventError_run, if_neg hevent] at hundone
    set u := final ((stopEvents g startedEvts).run t)
    have hcond : AccountedWhen k g (requests s.calls) ↔ g.event &&& maskOf osEvents = 0 := by
      constructor
      · rintro (hnil | ⟨-, hbits⟩)
        · exact absurd hnil hg
        · refine (hbits hbegun.startable).resolve_left fun heq => hevent ?_
          rw [hbegun.started, heq]
      · exact fun hnone => Or.inr ⟨hclean, fun _ => Or.inr hnone⟩
    rw [hcond, ← hbegun.held_iff hg hall]
    constructor
    · rintro ⟨o, c, hopen, -, -⟩
      exact ((hbook.trans hundone).unique hopen).2
    · intro hheld
      have hctrs : ctrsOf g.event osEvents = [] :=
        (ctrsOf_eq_nil hall).2 ((hbegun.held_iff hg hall).1 hheld)
      have hstop := stopEvents_final hg g.event u
      rw [hctrs] at hstop
      rw [hheld] at hbook hundone
      exact ⟨[], [], hbook.trans hundone, hstop, .refl _⟩

/-- The event that fails is one the group asks for and the start has not got to. -/
theorem Begun.event_ne (hsplit : osEvents = pre ++ e :: post) (h : Begun k g s pre startedEvts s₁)
    (he : g.event &&& e.event ≠ 0) : g.event ≠ startedEvts := by
  rintro heq
  rw [h.started] at heq
  rw [heq] at he
  exact he (started_and_later hsplit List.mem_cons_self _)

/-- An event that is not supported opens nothing, but may be returned from past the label. -/
theorem Begun.unsupported (hg : g.targets ≠ []) (hsplit : osEvents = pre ++ e :: post)
    (h : Begun k g s pre startedEvts s₁) (he : g.event &&& e.event ≠ 0)
    (hsup : e.supported k = false) :
    Balanced fdBook s.calls
        (if e.returns then s₁ else final ((startEventError g startedEvts).run s₁)).calls
      ↔ FailsClean k g (requests s.calls) pre e := by
  have hbook := h.asked.book
  have hno : ¬ e.supported k = true := by rw [hsup]; exact Bool.false_ne_true
  cases hret : e.returns with
  | true =>
    rw [if_pos rfl, hbook.balanced_iff, List.nil_perm, h.held_iff hg hsplit]
    exact ⟨fun hnone => ⟨fun _ _ => hnone, fun h => absurd h hno⟩, fun h => h.unsupported hsup hret⟩
  | false =>
    rw [if_neg Bool.false_ne_true]
    refine iff_of_true ?_ ⟨fun _ h => ?_, fun h => absurd h hno⟩
    · have hundone := h.undone hg hsplit (h.event_ne hsplit he) fun _ _ => rfl
      refine (hbook.trans hundone).balanced_iff.2 ?_
      rw [List.append_nil]
      exact .refl _
    · rw [hret] at h
      cases h

/-- An event that is refused a counter leaves open what it opened before. -/
theorem Begun.refused (hg : g.targets ≠ []) (hsplit : osEvents = pre ++ e :: post)
    (h : Begun k g s pre startedEvts s₁) (he : g.event &&& e.event ≠ 0)
    (hsup : e.supported k = true) {i : Nat} {fds : List Nat}
    (href : Refused k s₁.calls t.calls i fds) (hi : i < asks g [e])
    (hkept : ∀ c ∈ ctrsOf g.event pre, t.fds c = s₁.fds c) :
    Balanced fdBook s.calls (final ((startEventError g startedEvts).run t)).calls
      ↔ FailsClean k g (requests s.calls) pre e := by
  have hno : ¬ Grants k (requests s.calls + asks g pre) (asks g [e]) := by
    rw [← h.asked.requests]
    exact href.not_grants hi
  have hundone := h.undone hg hsplit (h.event_ne hsplit he) hkept
  have hleft : Balanced fdBook s.calls (final ((startEventError g startedEvts).run t)).calls
      ↔ fds = [] := by
    rw [((h.asked.book.trans href.book).trans hundone).balanced_iff]
    simp only [List.append_nil, List.nil_append]
    refine ⟨fun hperm => ?_, fun hnil => by rw [hnil, List.append_nil]⟩
    have hlen := hperm.length_eq
    rw [List.length_append] at hlen
    exact List.length_eq_zero_iff.1 (by omega)
  rw [hleft, ← href.first_iff, h.asked.requests]
  refine ⟨fun hnone => ⟨fun h => ?_, fun _ _ => hnone⟩, fun h => h.refused hsup hno⟩
  rw [hsup] at h
  cases h

/-- A start that an event fails. -/
theorem accounted_of_failed (hg : g.targets ≠ []) {x : StartExit}
    (hrun : (osEvents.foldlM (startEvent k g) 0).run s = .error x t) :
    Accounted k g s ↔ AccountedWhen k g (requests s.calls) := by
  obtain ⟨pre, e, post, startedEvts, s₁, hsplit, hpre, hfail⟩ := foldlM_error hrun
  have hbegun := startPrefix_ok hsplit hpre
  obtain ⟨he, hcases⟩ := startEvent_error hg hsplit hbegun hfail
  unfold Accounted
  rw [startEvents_run, hrun]
  rcases hcases with ⟨hsup, rfl, rfl⟩ | ⟨hsup, rfl, ⟨i, hi, fds, href⟩, hkept⟩
  · have hno : ¬ Startable k g (requests s.calls) (pre ++ [e]) := by
      intro h
      rw [(startable_append.1 h).2.supported e List.mem_cons_self he] at hsup
      cases hsup
    rw [accountedWhen_iff hg hsplit he hbegun.startable hno, ← hbegun.unsupported hg hsplit he hsup]
    cases e.returns <;> rfl
  · have hno : ¬ Startable k g (requests s.calls) (pre ++ [e]) := by
      intro h
      have hgr := (startable_append.1 h).2.granted
      rw [← hbegun.asked.requests] at hgr
      exact href.not_grants hi hgr
    rw [accountedWhen_iff hg hsplit he hbegun.startable hno]
    exact hbegun.refused hg hsplit he hsup href hi hkept

/-- A start accounts for its descriptors if and only if the first event that fails, fails clean. -/
theorem startEvents_accounted_iff (k : PerfKernel) (g : OsGroup) (s : OsMon) :
    Accounted k g s ↔ AccountedWhen k g (requests s.calls) := by
  by_cases hg : g.targets = []
  · exact iff_of_true (accounted_of_noTargets hg s) (Or.inl hg)
  · rcases hrun : (osEvents.foldlM (startEvent k g) 0).run s with ⟨startedEvts, t⟩ | ⟨x, t⟩
    · exact accounted_of_begun hg hrun
    · exact accounted_of_failed hg hrun

/-- A kernel that supports every event and grants the first request only. -/
def oneGrant : PerfKernel := ⟨fun _ => true, fun n => if n = 0 then some 3 else none⟩

def zeroValues : EventValues := ⟨0, 0, 0, 0, 0, 0, 0, 0, 0, 0, 0, 0, 0, none, 0, 0, 0⟩

/-- Nothing was called yet, and a group is all 0. -/
def osMon₀ : OsMon := ⟨[], fun _ => [], zeroValues⟩

/-- The counter of the first core is opened, that of the second refused, and the first left open. -/
theorem startEvents_leaves_open : ¬ Accounted oneGrant ⟨monEventL3Occup, [0, 1], []⟩ osMon₀ := by
  have hfail : failure ((startEvents oneGrant ⟨monEventL3Occup, [0, 1], []⟩).run osMon₀)
      = some .error := by
    decide
  unfold Accounted
  rw [failure_eq_some.1 hfail]
  intro hbal
  have hbook : Between fdBook osMon₀.calls
      (final ((startEvents oneGrant ⟨monEventL3Occup, [0, 1], []⟩).run osMon₀)).calls [3] [] :=
    ⟨by decide, by decide⟩
  exact absurd (hbook.balanced_iff.1 hbal) (by decide)

end Account

end Pqos
