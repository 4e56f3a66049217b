import Pqos.Init
import Pqos.Machine

/-!
# What initialisation leaves behind

Between calls the library is either as it was at the start of the process or fully up. From the
start a call of `pqos_init` brings it up or leaves it as it was, and which of the two is told by its
outcomes alone: monitoring does not count once allocation has failed.
-/

namespace Pqos

open Prog

/-- The library in use. -/
def Lib.up (cpu : CpuInfo) (cap : Cap) : Lib where
  apilock := true
  held := false
  initDone := true
  logReady := true
  topology := some cpu
  msrFds := some (cpu.lcores.foldr max 0 + 1)
  cpu := some cpu
  cap := some cap

/-- The stages up to the two technologies succeed. -/
structure Prepared (config : Config) (env : InitEnv) (cpu : CpuInfo) (found : Cap) : Prop where
  rdt : rdtAllows env.rdtIface config.interface = true
  lock : env.openLock = true ∧ env.mutexInit = true
  log : config.verbose = -1 ∨ 0 ≤ config.fdLog ∨ config.callbackLog = true
  topology : env.buildTopo = some cpu
  cores : cpu.lcores.foldr max 0 ≠ 0
  fds : env.mallocFds = true
  caps : env.discoverCapabilities cpu = .ok found
  os : (env.discoverOsCapabilities found).1 ≠ .error .error
  api : config.interface = pqosInterMsr ∨ config.interface = pqosInterOs

variable {config : Config} {env : InitEnv} {cpu : CpuInfo} {s t : Lib} {e : Err} {u : Unit}

/-! ## The stages -/

theorem machineInit_ok {maxCoreId : Nat} : (machineInit env maxCoreId).run s = .ok u t ↔
    maxCoreId ≠ 0 ∧ env.mallocFds = true ∧ t = { s with msrFds := some (maxCoreId + 1) } := by
  unfold machineInit
  simp only [bind_ok, failIf_ok]
  constructor
  · rintro ⟨_, _, ⟨h0, rfl⟩, _, _, ⟨hfds, rfl⟩, hmod⟩
    cases hmod
    exact ⟨h0, by simpa using hfds, rfl⟩
  · rintro ⟨h0, hfds, rfl⟩
    exact ⟨(), s, ⟨h0, rfl⟩, (), s, ⟨by simp [hfds], rfl⟩, rfl⟩

theorem discover_ok : (discover env cpu).run s = .ok u t ↔
    ∃ found, env.discoverCapabilities cpu = .ok found
      ∧ (env.discoverOsCapabilities found).1 ≠ .error .error
      ∧ t = { s with cap := some (env.discoverOsCapabilities found).2 } := by
  unfold discover
  simp only [bind_ok, ofExcept_ok, failIf_ok]
  constructor
  · rintro ⟨found, _, ⟨hfound, rfl⟩, _, _, hmod, hos, rfl⟩
    cases hmod
    exact ⟨found, hfound, hos, rfl⟩
  · rintro ⟨found, hfound, hos, rfl⟩
    exact ⟨found, s, ⟨hfound, rfl⟩, ⟨⟩, _, rfl, hos, rfl⟩

theorem apiInit_ok : (apiInit config).run s = .ok u t ↔
    (config.interface = pqosInterMsr ∨ config.interface = pqosInterOs) ∧ t = s := by
  unfold apiInit
  rw [failIf_ok, not_and_or, not_not, not_not]

theorem cpuinfoInit_ok (hs : s.topology = none) : (cpuinfoInit env).run s = .ok cpu t ↔
    env.buildTopo = some cpu ∧ t = { s with topology := some cpu, cpu := some cpu } := by
  unfold cpuinfoInit
  rw [get_bind]
  simp only [bind_ok, failIf_ok, ofOption_ok]
  constructor
  · rintro ⟨_, _, ⟨-, rfl⟩, cpu, _, ⟨hcpu, rfl⟩, _, _, hset, hret⟩
    cases hset
    cases hret
    exact ⟨hcpu, rfl⟩
  · rintro ⟨hcpu, rfl⟩
    exact ⟨(), s, ⟨by simp [hs], rfl⟩, cpu, s, ⟨hcpu, rfl⟩, ⟨⟩, _, rfl, rfl⟩

theorem logInit_ok : (logInit config).run s = .ok u t ↔
    (config.verbose = -1 ∨ 0 ≤ config.fdLog ∨ config.callbackLog = true)
      ∧ t = { s with logReady := true } := by
  unfold logInit
  simp only [bind_ok, failIf_ok]
  constructor
  · rintro ⟨_, _, ⟨hlog, rfl⟩, hmod⟩
    cases hmod
    refine ⟨?_, rfl⟩
    rwa [not_and_or, not_and_or, not_not, Int.not_lt, Bool.not_eq_false] at hlog
  · rintro ⟨hlog, rfl⟩
    refine ⟨(), s, ⟨?_, rfl⟩, rfl⟩
    rwa [not_and_or, not_and_or, not_not, Int.not_lt, Bool.not_eq_false]

theorem machineInit_error {maxCoreId : Nat}
    (h : (machineInit env maxCoreId).run s = .error e t) : t = s := by
  unfold machineInit at h
  simp only [bind_error, failIf_error, failIf_ok] at h
  rcases h with ⟨-, -, rfl⟩ | ⟨_, _, ⟨-, rfl⟩, ⟨-, -, rfl⟩ | ⟨_, _, -, h⟩⟩
  · rfl
  · rfl
  · cases h

theorem machineFini_final (h : s.msrFds ≠ none) :
    final (machineFini.run s) = { s with msrFds := none } := by
  unfold machineFini
  rw [get_bind, final_failIf_bind, if_neg h]
  rfl

theorem cpuinfoFini_final (h : s.topology ≠ none) :
    final (cpuinfoFini.run s) = { s with topology := none } := by
  unfold cpuinfoFini
  rw [get_bind, final_failIf_bind, if_neg h]
  rfl

theorem cpuinfoInit_error (h : (cpuinfoInit env).run s = .error e t) : t = s := by
  unfold cpuinfoInit at h
  rw [get_bind] at h
  simp only [bind_error, failIf_error, failIf_ok, ofOption_error, ofOption_ok] at h
  rcases h with ⟨-, -, rfl⟩ | ⟨_, _, ⟨-, rfl⟩, ⟨-, -, rfl⟩ | ⟨_, _, -, h | ⟨_, _, -, h⟩⟩⟩
  · rfl
  · rfl
  · cases h
  · cases h

theorem logInit_error (h : (logInit config).run s = .error e t) : t = s := by
  unfold logInit at h
  rcases bind_error.1 h with h | ⟨_, _, -, h⟩
  · exact (failIf_error.1 h).2.2
  · cases h

/-! ## A failed stage is taken back -/

/-- The two differ in what the library hands out, at most. -/
def SameBase (s t : Lib) : Prop := ∃ cpu cap, t = { s with cpu := cpu, cap := cap }

theorem SameBase.isFrame : Frame SameBase where
  refl s := ⟨s.cpu, s.cap, rfl⟩
  trans := by
    rintro s _ _ ⟨_, _, rfl⟩ ⟨cpu, cap, rfl⟩
    exact ⟨cpu, cap, rfl⟩

theorem discover_keeps (env : InitEnv) (cpu : CpuInfo) : Keeps SameBase (discover env cpu) :=
  Keeps.bind SameBase.isFrame (Keeps.ofExcept SameBase.isFrame _) fun _ =>
    Keeps.bind SameBase.isFrame (fun s => ⟨s.cpu, _, rfl⟩) fun _ =>
      Keeps.failIf SameBase.isFrame _ _

theorem initMachine_error (hs : s.msrFds = none)
    (h : (initMachine config env cpu).run s = .error e t) : SameBase s t := by
  unfold initMachine at h
  rcases bind_error.1 h with h | ⟨_, s₁, hinit, h⟩
  · exact machineInit_error h ▸ SameBase.isFrame.refl s
  · obtain ⟨s₂, hrun, rfl⟩ := onError_error.1 h
    obtain ⟨-, -, hfds⟩ := machineInit_ok.1 hinit
    have hkeep : SameBase s₁ s₂ := by
      refine Keeps.of_error ?_ hrun
      exact Keeps.bind SameBase.isFrame (discover_keeps env cpu) fun _ =>
        Keeps.bind SameBase.isFrame (Keeps.failIf SameBase.isFrame _ _) fun _ =>
          Keeps.ofExcept SameBase.isFrame _
    obtain ⟨cpu', cap', rfl⟩ := hkeep
    rw [machineFini_final (by simp [hfds]), hfds, ← hs]
    exact ⟨cpu', cap', rfl⟩

theorem initStages_error (hfds : s.msrFds = none) (htopo : s.topology = none)
    (hlog : s.logReady = false) (h : (initStages config env).run s = .error e t) :
    SameBase s t := by
  unfold initStages at h
  rcases bind_error.1 h with h | ⟨_, s₁, hinit, h⟩
  · exact logInit_error h ▸ SameBase.isFrame.refl s
  · obtain ⟨s₂, hrun, rfl⟩ := onError_error.1 h
    obtain ⟨-, rfl⟩ := logInit_ok.1 hinit
    have hkeep : SameBase { s with logReady := true } s₂ := by
      rcases bind_error.1 hrun with hrun | ⟨cpu, s₃, hcpu, hrun⟩
      · exact cpuinfoInit_error hrun ▸ SameBase.isFrame.refl _
      · obtain ⟨s₄, hmachine, rfl⟩ := onError_error.1 hrun
        obtain ⟨-, rfl⟩ := (cpuinfoInit_ok (s := { s with logReady := true }) htopo).1 hcpu
        obtain ⟨cpu', cap', rfl⟩ := initMachine_error (by exact hfds) hmachine
        rw [cpuinfoFini_final (by simp)]
        exact ⟨cpu', cap', by rw [htopo]⟩
    obtain ⟨cpu', cap', rfl⟩ := hkeep
    refine ⟨cpu', cap', ?_⟩
    show ({ s with logReady := false, cpu := cpu', cap := cap' } : Lib) = _
    rw [← hlog]

/-! ## What success takes -/

/-- The API lock, taken by a library that holds nothing else. -/
def Lib.opened : Lib := { Lib.start with apilock := true, held := true }

/-- All stages succeed when those up to the technologies do, and these with them. -/
theorem initStages_ok : (initStages config env).run .opened = .ok u t ↔
    ∃ cpu found, (config.verbose = -1 ∨ 0 ≤ config.fdLog ∨ config.callbackLog = true)
      ∧ env.buildTopo = some cpu ∧ cpu.lcores.foldr max 0 ≠ 0 ∧ env.mallocFds = true
      ∧ env.discoverCapabilities cpu = .ok found
      ∧ (env.discoverOsCapabilities found).1 ≠ .error .error
      ∧ (config.interface = pqosInterMsr ∨ config.interface = pqosInterOs)
      ∧ initTechnologies env = .ok ()
      ∧ t = { Lib.up cpu (env.discoverOsCapabilities found).2 with
        held := true, initDone := false } := by
  unfold initStages initMachine
  simp only [bind_ok, onError_ok, logInit_ok, machineInit_ok, discover_ok, apiInit_ok, ofExcept_ok]
  constructor
  · rintro ⟨_, _, ⟨hlog, rfl⟩, cpu, s₁, hcpu, _, s₂, ⟨h0, hfds, rfl⟩, _, s₃,
      ⟨found, hfound, hos, rfl⟩, _, s₄, ⟨hapi, rfl⟩, htech, rfl⟩
    obtain ⟨htopo, rfl⟩ := (cpuinfoInit_ok rfl).1 hcpu
    exact ⟨cpu, found, hlog, htopo, h0, hfds, hfound, hos, hapi, htech, rfl⟩
  · rintro ⟨cpu, found, hlog, htopo, h0, hfds, hfound, hos, hapi, htech, rfl⟩
    exact ⟨(), _, ⟨hlog, rfl⟩, cpu, _, (cpuinfoInit_ok rfl).2 ⟨htopo, rfl⟩, (), _, ⟨h0, hfds, rfl⟩,
      (), _, ⟨found, hfound, hos, rfl⟩, (), _, ⟨hapi, rfl⟩, htech, rfl⟩

/-! ## The two calls -/

/-- From the start, a call gets to the stages when the environment lets it and the lock file opens;
what they leave if they fail is taken back to the start. -/
theorem pqosInit_run (hrdt : rdtAllows env.rdtIface config.interface = true)
    (hlock : env.openLock = true ∧ env.mutexInit = true) :
    (pqosInit (some config) env).run .start
      = match (initStages config env).run .opened with
        | .ok _ t => .ok () { t with initDone := true, held := false }
        | .error e t => .error e
            { t with cpu := none, cap := none, held := false, apilock := false } := by
  have hfirst : (pqosInit (some config) env).run .start
      = ((onError (initStages config env) (do
          modify fun s => { s with cpu := none, cap := none }
          pqosApiUnlock
          pqosApiExit)) >>= fun _ => do
        modify fun s => { s with initDone := true }
        pqosApiUnlock : EStateM Err Lib Unit).run .opened := by
    unfold pqosInit
    rw [bind_of_ok (ofOption_ok.2 ⟨rfl, rfl⟩),
      bind_of_ok (failIf_ok (u := ()).2 ⟨by simp [hrdt], rfl⟩)]
    unfold pqosApiInit
    rw [bind_of_ok (a := ()) (u := { Lib.start with apilock := true })]
    · rfl
    · rw [get_bind, bind_of_ok (failIf_ok (u := ()).2 ⟨by simp [Lib.start, hlock], rfl⟩)]
      rfl
  rw [hfirst]
  rcases hrun : (initStages config env).run .opened with ⟨_, t⟩ | ⟨e, t⟩
  · rw [bind_of_ok (onError_ok.2 hrun)]
    rfl
  · rw [bind_of_error (onError_error.2 ⟨t, hrun, rfl⟩)]
    rfl

/-- The checks before the stages leave everything as it was. -/
theorem pqosInit_refused (h : ¬ (rdtAllows env.rdtIface config.interface = true
      ∧ env.openLock = true ∧ env.mutexInit = true)) :
    (pqosInit (some config) env).run .start = .error .error .start := by
  unfold pqosInit
  rw [bind_of_ok (ofOption_ok.2 ⟨rfl, rfl⟩)]
  by_cases hrdt : rdtAllows env.rdtIface config.interface = true
  · have hlock : env.openLock = false ∨ env.mutexInit = false := by
      rw [← Bool.not_eq_true, ← Bool.not_eq_true, ← not_and_or]
      exact fun hlock => h ⟨hrdt, hlock⟩
    rw [bind_of_ok (failIf_ok (u := ()).2 ⟨by simp [hrdt], rfl⟩)]
    refine bind_of_error ?_
    unfold pqosApiInit
    rw [get_bind]
    exact bind_of_error (failIf_error.2 ⟨Or.inr hlock, rfl, rfl⟩)
  · exact bind_of_error (failIf_error.2 ⟨by simpa using hrdt, rfl, rfl⟩)

/-- A call that fails at the start leaves the library there. -/
theorem pqosInit_error {c : Option Config} (h : (pqosInit c env).run .start = .error e t) :
    t = .start := by
  cases c with
  | none =>
    cases h
    rfl
  | some config =>
    by_cases hfirst : rdtAllows env.rdtIface config.interface = true
        ∧ env.openLock = true ∧ env.mutexInit = true
    · rw [pqosInit_run hfirst.1 hfirst.2] at h
      rcases hrun : (initStages config env).run .opened with ⟨_, t'⟩ | ⟨e', t'⟩ <;> rw [hrun] at h
      · cases h
      · obtain ⟨cpu, cap, rfl⟩ := initStages_error rfl rfl rfl hrun
        cases h
        rfl
    · rw [pqosInit_refused hfirst] at h
      cases h
      rfl

theorem pqosInit_ok : (pqosInit (some config) env).run .start = .ok u t ↔
    ∃ cpu found, Prepared config env cpu found ∧ initTechnologies env = .ok ()
      ∧ t = .up cpu (env.discoverOsCapabilities found).2 := by
  by_cases hfirst : rdtAllows env.rdtIface config.interface = true
      ∧ env.openLock = true ∧ env.mutexInit = true
  · rw [pqosInit_run hfirst.1 hfirst.2]
    constructor
    · intro h
      rcases hrun : (initStages config env).run .opened with ⟨_, t'⟩ | ⟨e, t'⟩ <;> rw [hrun] at h
      · obtain ⟨cpu, found, hlog, htopo, h0, hfds, hfound, hos, hapi, htech, rfl⟩ :=
          initStages_ok.1 hrun
        cases h
        exact ⟨cpu, found, ⟨hfirst.1, hfirst.2, hlog, htopo, h0, hfds, hfound, hos, hapi⟩, htech,
          rfl⟩
      · cases h
    · rintro ⟨cpu, found, hp, htech, rfl⟩
      rw [(initStages_ok (u := ())).2 ⟨cpu, found, hp.log, hp.topology, hp.cores, hp.fds, hp.caps,
        hp.os, hp.api, htech, rfl⟩]
      rfl
  · rw [pqosInit_refused hfirst]
    constructor
    · intro h
      cases h
    · rintro ⟨cpu, found, hp, -⟩
      exact absurd ⟨hp.rdt, hp.lock⟩ hfirst

theorem pqosInit_ok_none : (pqosInit none env).run s ≠ .ok u t := by
  intro h
  cases h

/-- A call on a library in use fails before it changes anything. -/
theorem pqosInit_up (c : Option Config) (env : InitEnv) (cpu : CpuInfo) (cap : Cap) :
    ∃ e, (pqosInit c env).run (.up cpu cap) = .error e (.up cpu cap) := by
  cases c with
  | none => exact ⟨.param, rfl⟩
  | some config =>
    refine ⟨.error, ?_⟩
    unfold pqosInit
    rw [bind_of_ok (ofOption_ok.2 ⟨rfl, rfl⟩)]
    by_cases hrdt : rdtAllows env.rdtIface config.interface = false
    · exact bind_of_error (failIf_error.2 ⟨hrdt, rfl, rfl⟩)
    · rw [bind_of_ok (failIf_ok (u := ()).2 ⟨hrdt, rfl⟩)]
      refine bind_of_error ?_
      unfold pqosApiInit
      rw [get_bind]
      exact bind_of_error (failIf_error.2 ⟨Or.inl rfl, rfl, rfl⟩)

/-- Shutting down ends at the start, whatever it returns. -/
theorem pqosFini_start {fini : FiniEnv} : final ((pqosFini fini).run .start) = .start := rfl

theorem pqosFini_up {fini : FiniEnv} {cap : Cap} :
    final ((pqosFini fini).run (.up cpu cap)) = .start := by
  cases fini <;> rfl

/-! ## Runs -/

/-- Between calls the library is as at the start, or up. -/
inductive Lib.Settled : Lib → Prop
  | down : Lib.Settled .start
  | up (cpu : CpuInfo) (cap : Cap) : Lib.Settled (.up cpu cap)

/-- The step lemma: any call, failed or not. -/
theorem Lib.Settled.step (h : s.Settled) (c : LibraryCall) :
    (final ((libraryCall c).run s)).Settled := by
  cases c with
  | init config env =>
    show (final ((pqosInit config env).run s)).Settled
    cases h with
    | down =>
      rcases hrun : (pqosInit config env).run .start with ⟨u, t⟩ | ⟨e, t⟩
      · cases config with
        | none => exact absurd hrun pqosInit_ok_none
        | some config =>
          obtain ⟨cpu, found, -, -, rfl⟩ := pqosInit_ok.1 hrun
          exact .up _ _
      · rw [pqosInit_error hrun]
        exact .down
    | up cpu cap =>
      obtain ⟨e, he⟩ := pqosInit_up config env cpu cap
      rw [he]
      exact .up _ _
  | fini env =>
    show (final ((pqosFini env).run s)).Settled
    cases h with
    | down =>
      rw [pqosFini_start]
      exact .down
    | up cpu cap =>
      rw [pqosFini_up]
      exact .down

theorem libraryRun_settled (calls : List LibraryCall) : (libraryRun calls).Settled := by
  have key : ∀ {s : Lib}, s.Settled →
      (calls.foldl (fun s c => final ((libraryCall c).run s)) s).Settled := by
    induction calls with
    | nil => exact fun h => h
    | cons c calls ih => exact fun h => ih (h.step c)
  exact key .down

/-! ## The contract -/

theorem initTechnologies_ok (hbusy : env.allocInit ≠ .error .busy) :
    initTechnologies env = .ok () ↔ env.allocInit.isOk = true := by
  unfold initTechnologies
  rw [if_neg hbusy]
  rcases halloc : env.allocInit with e | ⟨⟩
  · rcases env.monInit with e' | ⟨⟩ <;> simp [Except.isOk, Except.toBool]
  · simp [Except.isOk, Except.toBool]

/-- What the calls of `pqos_init` owe in a state: on a library not in use, OK exactly when one of
the two technologies came up, unless that was monitoring alone; a failure leaves a library that the
next call can bring up, the lock file closed; on a library in use, nothing but an error. -/
structure InitContract (s : Lib) : Prop where
  either : s.initDone = false → ∀ config env cpu found, Prepared config env cpu found →
    env.allocInit ≠ .error .busy →
    (((∃ t, (pqosInit (some config) env).run s = .ok () t)
        ↔ env.monInit.isOk = true ∨ env.allocInit.isOk = true)
      ↔ ¬ (env.monInit.isOk = true ∧ env.allocInit.isOk = false))
  failed : s.initDone = false → ∀ config env e t, (pqosInit config env).run s = .error e t →
    t.initDone = false ∧ t.apilock = false ∧ t.held = false
      ∧ ∀ config env cpu found, Prepared config env cpu found → env.allocInit = .ok () →
        ∃ u, (pqosInit (some config) env).run t = .ok () u ∧ u.initDone = true
  inUse : s.initDone = true → ∀ config env, ∃ e, (pqosInit config env).run s = .error e s

theorem Lib.Settled.contract (h : s.Settled) : InitContract s := by
  refine ⟨fun hdown config env cpu found hp hbusy => ?_, fun hdown config env e t hrun => ?_,
    fun hup config env => ?_⟩
  · cases h with
    | down =>
      have hok : (∃ t, (pqosInit (some config) env).run .start = .ok () t)
          ↔ env.allocInit.isOk = true := by
        rw [← initTechnologies_ok hbusy]
        constructor
        · rintro ⟨t, h⟩
          obtain ⟨-, -, -, htech, -⟩ := pqosInit_ok.1 h
          exact htech
        · exact fun htech => ⟨_, pqosInit_ok.2 ⟨cpu, found, hp, htech, rfl⟩⟩
      rw [hok]
      cases env.monInit.isOk <;> cases env.allocInit.isOk <;> simp
    | up cpu cap => cases hdown
  · cases h with
    | down =>
      rw [pqosInit_error hrun]
      refine ⟨rfl, rfl, rfl, fun config env cpu found hp halloc => ?_⟩
      have htech : initTechnologies env = .ok () := by
        rw [initTechnologies_ok (by rw [halloc]; simp), halloc]
        rfl
      exact ⟨_, pqosInit_ok.2 ⟨cpu, found, hp, htech, rfl⟩, rfl⟩
    | up cpu cap => cases hdown
  · cases h with
    | down => cases hup
    | up cpu cap => exact pqosInit_up config env cpu cap

/-- The contract holds in every state that a run of calls reaches. -/
theorem libraryRun_contract (calls : List LibraryCall) : InitContract (libraryRun calls) :=
  (libraryRun_settled calls).contract

/-! ## Monitoring alone -/

/-- The first clause of the contract without its exception. -/
def InitEither : Prop :=
  ∀ calls config env cpu found, (libraryRun calls).initDone = false →
    Prepared config env cpu found → env.allocInit ≠ .error .busy →
    ((∃ t, (pqosInit (some config) env).run (libraryRun calls) = .ok () t)
      ↔ env.monInit.isOk = true ∨ env.allocInit.isOk = true)

def osConfig : Config := ⟨pqosInterOs, 1, false, 0⟩

/-- On the OS interface perf events can be counted, and resctrl cannot be mounted. -/
def monOnlyEnv : InitEnv where
  rdtIface := none
  openLock := true
  mutexInit := true
  buildTopo := some (smallPlatform []).cpu
  mallocFds := true
  discoverCapabilities _ := .ok [⟨false, .mon ⟨8, []⟩⟩, ⟨false, .l3ca ⟨4, 11, 0, false, false⟩⟩]
  discoverOsCapabilities cap := (.ok (), cap)
  monInit := .ok ()
  allocInit := .error .resource

theorem not_initEither : ¬ InitEither := by
  intro h
  have hp : Prepared osConfig monOnlyEnv (smallPlatform []).cpu
      [⟨false, .mon ⟨8, []⟩⟩, ⟨false, .l3ca ⟨4, 11, 0, false, false⟩⟩] :=
    ⟨rfl, ⟨rfl, rfl⟩, Or.inr (Or.inl (by decide)), rfl, by decide, rfl, rfl, by decide, Or.inr rfl⟩
  obtain ⟨t, ht⟩ := (h [] osConfig monOnlyEnv _ _ rfl hp (by decide)).2 (Or.inl rfl)
  cases ht

end Pqos
