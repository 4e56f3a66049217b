import Pqos.Proofs.OsStore

/-!
# A small kernel

Four classes with an L3 mask for data and one for code, L2 masks and a rate, two CPUs and one task,
behind files that print what there is and take what is written as the library would.
-/

namespace Pqos

open CText Prog Refine Schemata

/-- Four classes of `pairPlatform`, its CPUs 0 and 1, and task 7. -/
structure GroupState where
  sch : SchemataState pairPlatform 4
  cpu : Fin 2 → Fin 4
  task : Fin 4

namespace GroupState

def alloc (k : GroupState) : Nat → Schemata := k.sch.alloc

def cpuClass (k : GroupState) (lcore : Nat) : Option Nat :=
  if h : lcore < 2 then some (k.cpu ⟨lcore, h⟩) else none

def taskClass (k : GroupState) (task : Nat) : Nat := if task = 7 then k.task else 0

/-- The CPUs after a mask was written to class `c`. -/
def moveCpus (k : GroupState) (c : Fin 4) (text : List Char) : GroupState :=
  { k with cpu := fun i =>
      if (CpuMask.hexValue text).testBit i = true then c else if k.cpu i = c then 0 else k.cpu i }

/-- What is in a file of class `c`. -/
def text (k : GroupState) (c : Nat) : RctlFile → List Char
  | .schemata => schemataWrite (k.alloc c)
  | .cpus => [Nat.digitChar ((if (k.cpu 0).val = c then 1 else 0)
      + if (k.cpu 1).val = c then 2 else 0), '\n']
  | .tasks => if k.task.val = c then ['7', '\n'] else []

/-- Files that print what a class has, and take what is written as the library would. -/
def files : Resctrl GroupState where
  read c file := do
    failIf (4 ≤ c) ()
    return (← get).text c file
  write c file text := fun k =>
    if hc : c < 4 then
      match file with
      | .schemata =>
        match k.sch.take c text with
        | none => .error () k
        | some sch => .ok () { k with sch := sch }
      | .cpus => .ok () (k.moveCpus ⟨c, hc⟩ text)
      | .tasks =>
        if text = Nat.toDigits 10 7 ++ ['\n'] then .ok () { k with task := ⟨c, hc⟩ }
        else .error () k
    else .error () k
  taskExists _ task := task = 7

theorem read_ok {c : Nat} {file : RctlFile} {k k' : GroupState} {text : List Char}
    (h : (files.read c file).run k = .ok text k') : c < 4 ∧ k' = k ∧ text = k.text c file := by
  simp only [files, bind_ok, failIf_ok] at h
  obtain ⟨_, _, ⟨hc, rfl⟩, k₁, _, hget, h⟩ := h
  cases hget
  cases h
  exact ⟨Nat.not_le.1 hc, rfl, rfl⟩

theorem read_keeps (c : Nat) (file : RctlFile) :
    Keeps (fun k k' => k' = k) (files.read c file) := by
  have hframe : Frame fun k k' : GroupState => k' = k := Frame.eq id
  exact Keeps.bind hframe (Keeps.failIf hframe _ _) fun _ k => rfl

/-- What a write that is accepted does. -/
def Took (c : Fin 4) (text : List Char) (k k' : GroupState) : RctlFile → Prop
  | .schemata => ∃ sch, k.sch.take c text = some sch ∧ k' = { k with sch := sch }
  | .cpus => k' = k.moveCpus c text
  | .tasks => text = Nat.toDigits 10 7 ++ ['\n'] ∧ k' = { k with task := c }

theorem write_ok {c : Nat} {file : RctlFile} {text : List Char} {k k' : GroupState} {u : Unit}
    (h : (files.write c file text).run k = .ok u k') :
    ∃ hc : c < 4, Took ⟨c, hc⟩ text k k' file := by
  by_cases hc : c < 4
  · refine ⟨hc, ?_⟩
    cases file with
    | schemata =>
      simp only [files, EStateM.run, dif_pos hc] at h
      split at h
      · cases h
      · next sch hsch =>
        cases h
        exact ⟨sch, hsch, rfl⟩
    | cpus =>
      simp only [files, EStateM.run, dif_pos hc] at h
      cases h
      rfl
    | tasks =>
      simp only [files, EStateM.run, dif_pos hc] at h
      split_ifs at h with htext
      cases h
      exact ⟨htext, rfl⟩
  · simp only [files, EStateM.run, dif_neg hc] at h
    cases h

theorem write_error {c : Nat} {file : RctlFile} {text : List Char} {k k' : GroupState} {u : Unit}
    (h : (files.write c file text).run k = .error u k') : k' = k := by
  by_cases hc : c < 4
  · cases file with
    | schemata =>
      simp only [files, EStateM.run, dif_pos hc] at h
      split at h
      · cases h
        rfl
      · cases h
    | cpus =>
      simp only [files, EStateM.run, dif_pos hc] at h
      cases h
    | tasks =>
      simp only [files, EStateM.run, dif_pos hc] at h
      split_ifs at h
      cases h
      rfl
  · simp only [files, EStateM.run, dif_neg hc] at h
    cases h
    rfl

/-- A schemata text that is accepted is what the class has from then on. -/
theorem write_schemata {c : Nat} {text : List Char} {s : Schemata} {k k' : GroupState} {u : Unit}
    (hlists : Lists pairPlatform.cdpOn text s) (hs : HasEntries pairPlatform c s)
    (hrates : s.RatesFit) (h : (files.write c .schemata text).run k = .ok u k') :
    k'.alloc = Function.update k.alloc c s := by
  obtain ⟨hc, sch, htake, rfl⟩ := write_ok h
  exact SchemataState.take_lists hc hlists hs hrates htake

/-- Rates that rounding to steps of 10 keeps are numbers of 32 bits. -/
theorem ratesFit_of_settled {s : Schemata} (h : s.Settled pairPlatform) : s.RatesFit := by
  intro r hr
  rw [← h _ rfl r hr]
  exact osMbaRate_lt (by decide)

theorem ofText_text {k : GroupState} {c lcore : Nat} (hl : lcore < 4096) :
    (CpuMask.ofText (k.text c .cpus)).get lcore = true ↔ k.cpuClass lcore = some c := by
  have hvalue : ∀ v < 16, CpuMask.hexValue [Nat.digitChar v, '\n'] = v := by decide
  have htext : (k.text c .cpus).take 511 = k.text c .cpus := rfl
  rw [CpuMask.get_ofText _ hl, htext, text, hvalue _ (by split_ifs <;> decide), cpuClass]
  match lcore with
  | 0 => by_cases h0 : (k.cpu 0).val = c <;> by_cases h1 : (k.cpu 1).val = c <;> simp [h0, h1]
  | 1 =>
    have h3 : Nat.testBit 3 1 = true := by decide
    have h2 : Nat.testBit 2 1 = true := by decide
    have h01 : Nat.testBit 1 1 = false := by decide
    by_cases h0 : (k.cpu 0).val = c <;> by_cases h1 : (k.cpu 1).val = c <;>
      simp [h0, h1, h2, h3, h01]
  | m + 2 =>
    have hbit : ∀ v < 4, v.testBit (m + 2) = false := fun v hv =>
      Nat.testBit_lt_two_pow (Nat.lt_of_lt_of_le hv
        (Nat.pow_le_pow_right Nat.two_pos (by omega : 2 ≤ m + 2)))
    rw [hbit _ (by split_ifs <;> decide), dif_neg (by omega)]
    simp

theorem toDigits_seven {task : Nat}
    (h : Nat.toDigits 10 task ++ ['\n'] = Nat.toDigits 10 7 ++ ['\n']) : task = 7 := by
  have := congrArg (ofDigits 10) (List.append_cancel_right h)
  rwa [ofDigits_toDigits (by decide) (by decide), ofDigits_toDigits (by decide) (by decide)] at this

theorem groupFiles : GroupFiles files cpuClass taskClass where
  cpus_lt {k lcore c} h := by
    unfold cpuClass at h
    split_ifs at h
    omega
  reads c file k := by
    rw [read_keeps c file k]
    exact (SameCos.isFrame _ _).refl k
  schemata c text k := by
    rcases hrun : (files.write c .schemata text).run k with ⟨u, k'⟩ | ⟨u, k'⟩
    · obtain ⟨_, _, _, rfl⟩ := write_ok hrun
      exact ⟨rfl, rfl⟩
    · rw [final_error, write_error hrun]
      exact (SameCos.isFrame _ _).refl k
  cpus_read {c k text k'} h lcore hl := by
    obtain ⟨-, -, rfl⟩ := read_ok h
    exact ofText_text hl
  cpus_write {c k mask u k'} h := by
    obtain ⟨hc, rfl⟩ := write_ok h
    refine ⟨fun lcore => ?_, rfl⟩
    unfold cpuClass
    by_cases hl : lcore < 2
    · rw [dif_pos hl, dif_pos hl, Option.map_some]
      simp only [moveCpus, CpuMask.testBit_text mask (by omega : lcore < 4096), Fin.ext_iff]
      split_ifs <;> rfl
    · rw [dif_neg hl, dif_neg hl, Option.map_none]
  tasks_write {c k task u k'} h := by
    obtain ⟨hc, htext, rfl⟩ := write_ok h
    obtain rfl := toDigits_seven htext
    refine ⟨rfl, funext fun t => ?_⟩
    by_cases ht : t = 7 <;> simp [taskClass, ht]
  refused h := by
    rw [write_error h]
    exact (SameCos.isFrame _ _).refl _
  gone {k task} h := if_neg (of_decide_eq_false h)

theorem schemataKernel : SchemataKernel pairPlatform files alloc 4 where
  entries k c hc := k.sch.entries c hc
  rates k c hc := k.sch.rates c hc
  reads c k := by rw [read_keeps c .schemata k]
  read {k c text k'} hc h := by
    obtain ⟨-, -, rfl⟩ := read_ok h
    exact schemataWrite_lists (k.sch.entries c hc).uniform
  write {k c text s u k'} hc hlists hs hrates h := by
    rw [write_schemata hlists hs hrates h]
    simp only [Function.update_self]
    exact ⟨fun c' hc' => Function.update_of_ne hc' _ _, fun _ => id, fun _ => id, fun _ => id⟩
  step_lt := pairPlatform_kernel.step_lt

theorem groupKernel : GroupKernel pairPlatform files alloc cpuClass taskClass 4 where
  toGroupFiles := groupFiles
  schemataKernel := schemataKernel
  grps := rfl
  step_le c hc := by
    cases hc
    decide
  online k lcore := by
    have hcores : pairPlatform.cpu.lcores = [0, 1] := rfl
    rw [hcores, cpuClass]
    split_ifs with hl
    · simp only [Option.isSome_some, iff_true, List.mem_cons, List.not_mem_nil, or_false]
      omega
    · simp only [Option.isSome_none, Bool.false_eq_true, iff_false, List.mem_cons,
        List.not_mem_nil, or_false]
      omega
  settled k c hc := k.sch.settled c hc
  absent {c} hc file k := by
    refine ⟨k, ?_⟩
    exact bind_of_error (failIf_error.2 ⟨hc, rfl, rfl⟩)
  reads_alloc c file k := by
    rw [read_keeps c file k]
    exact ⟨rfl, rfl⟩
  writes_exist _ _ _ _ := rfl
  writes_alloc c file text hfile k := by
    rcases hrun : (files.write c file text).run k with ⟨u, k'⟩ | ⟨u, k'⟩
    · cases file with
      | schemata => exact absurd rfl hfile
      | cpus =>
        obtain ⟨_, rfl⟩ := write_ok hrun
        rfl
      | tasks =>
        obtain ⟨_, -, rfl⟩ := write_ok hrun
        rfl
    · rw [final_error, write_error hrun]
  refused_alloc h := by rw [write_error h]
  schemata_write _ hlists hs hset h := write_schemata hlists hs (ratesFit_of_settled hset) h
  tasks_read {k c text k'} h := by
    obtain ⟨hc, -, rfl⟩ := read_ok h
    refine ⟨if k.task.val = c then [7] else [], ?_, fun task => ?_⟩
    · unfold GroupState.text
      split_ifs <;> rfl
    · by_cases ht : task = 7 <;> by_cases hcls : k.task.val = c <;>
        simp [files, taskClass, ht, hcls]
  task_lt {k task} h := by
    have : task = 7 := of_decide_eq_true h
    omega

/-- CPUs and the task in class 0. -/
def start : GroupState := ⟨pairState, fun _ => 0, 0⟩

end GroupState

end Pqos
