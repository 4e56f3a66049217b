import Pqos.OsAllocation

/-!
# Tasks and their classes

On the OS interface a task has a class as a core has. The `tasks` file of a class has one number a
line; a task's class is found by searching the files from the highest class down, and a class's
tasks by reading its file. With these the interface of allocation is complete.
-/

namespace Pqos

open CText Prog

variable {κ : Type} (p : Platform) (fs : Resctrl κ)

/-! ## The tasks files -/

/-- The size of the buffer a line of a `tasks` file is read into. -/
def taskLineSize : Nat := 128

def taskLine (buf : List Char) : Except Err Nat := strtouint64 (cstr buf) 10

/-- The tasks of a class, in the order of its file. A task id is an unsigned number. -/
def taskRead (classId : Nat) : EStateM Err κ (List Nat) := do
  let text ← readFile fs classId .tasks
  let tasks ← ofExcept ((fgets taskLineSize text).mapM taskLine)
  return tasks.map (· % 2 ^ 32)

/-- Whether a line is the task's, a line that is no number being nobody's. -/
def isTaskLine (task : Nat) (buf : List Char) : Bool :=
  match taskLine buf with
  | .ok tid => tid % 2 ^ 32 = task
  | .error _ => false

/-- The highest class below `n` whose file has the task. -/
def taskFind (task : Nat) : Nat → EStateM Err κ Nat
  | 0 => throw .error
  | i + 1 => do
    let text ← readFile fs i .tasks
    if (fgets taskLineSize text).any (isTaskLine task) then return i else taskFind task i

def taskSearch (task : Nat) : EStateM Err κ Nat := do
  let k ← get
  failIf (fs.taskExists k task = false) .param
  let maxCos ← ofExcept p.getGrpsNum
  taskFind fs task maxCos

/-! ## Their classes -/

def osAllocAssocSetPid (task classId : Nat) : EStateM Err κ Unit := do
  let maxCos ← ofExcept p.getGrpsNum
  failIf (maxCos ≤ classId) .param
  taskWrite fs classId task

def osAllocAssocGetPid (task : Nat) : EStateM Err κ Nat := taskSearch p fs task

/-- The source returns a null pointer for each of these errors. -/
def osPidGetPidAssoc (classId : Nat) : EStateM Err κ (List Nat) := do
  let grps ← ofExcept p.getGrpsNum
  failIf (grps ≤ classId) .param
  taskRead fs classId

/-! ## The interface -/

/-- A back end with its calls for single tasks. -/
structure PidBackend (σ : Type) extends Backend σ where
  allocAssocSetPid : Nat → Nat → EStateM Err σ Unit
  allocAssocGetPid : Nat → EStateM Err σ Nat
  pidGetPidAssoc : Nat → EStateM Err σ (List Nat)

def hwPidBackend : PidBackend Msr where
  toBackend := hwBackend p
  allocAssocSetPid := fun _ _ => throw .error
  allocAssocGetPid := fun _ => throw .error
  pidGetPidAssoc := fun _ => throw .error

def osPidBackend : PidBackend κ where
  toBackend := osBackend p fs
  allocAssocSetPid := osAllocAssocSetPid p fs
  allocAssocGetPid := osAllocAssocGetPid p fs
  pidGetPidAssoc := osPidGetPidAssoc p fs

section Api

variable {σ : Type} (b : Backend σ) (pb : PidBackend σ)

def pqosAllocAssocSet (lcore classId : Nat) : EStateM Err σ Unit := do
  checkInit b
  b.allocAssocSet lcore classId

def pqosL2caGet (l2id maxNumCa : Nat) : EStateM Err σ (List L2ca) := do
  failIf (maxNumCa = 0) .param
  checkInit b
  b.l2caGet l2id maxNumCa

def pqosMbaGet (socket maxNumCos : Nat) : EStateM Err σ (List Mba) := do
  failIf (maxNumCos = 0) .param
  checkInit b
  b.mbaGet socket maxNumCos

def pqosAllocAssocSetPid (task classId : Nat) : EStateM Err σ Unit := do
  checkInit pb.toBackend
  failIf (pb.interface ≠ .os) .error
  pb.allocAssocSetPid task classId

def pqosAllocAssocGetPid (task : Nat) : EStateM Err σ Nat := do
  checkInit pb.toBackend
  failIf (pb.interface ≠ .os) .error
  pb.allocAssocGetPid task

/-- The source checks the interface before anything else here, and returns a null pointer for each
of these errors. -/
def pqosPidGetPidAssoc (classId : Nat) : EStateM Err σ (List Nat) := do
  failIf (pb.interface ≠ .os) .error
  checkInit pb.toBackend
  pb.pidGetPidAssoc classId

end Api

/-! ## Calls -/

inductive AllocCall
  | l3caSet (socket : Nat) (ca : List L3ca)
  | l3caGet (socket maxNumCa : Nat)
  | l2caSet (l2id : Nat) (ca : List L2ca)
  | l2caGet (l2id maxNumCa : Nat)
  | mbaSet (socket : Nat) (requested : List Mba) (wantActual : Bool)
  | mbaGet (socket maxNumCos : Nat)
  | assocSet (lcore classId : Nat)
  | assocGet (lcore : Nat)
  | assign (technology : Nat) (coreArray : List Nat)
  | release (coreArray : List Nat)
  | assocSetPid (task classId : Nat)
  | assocGetPid (task : Nat)
  | assignPid (technology : Nat) (taskArray : List Nat)
  | releasePid (taskArray : List Nat)
  | pidAssoc (classId : Nat)
deriving DecidableEq

inductive AllocReply
  | done
  | l3ca (ca : List L3ca)
  | l2ca (ca : List L2ca)
  | mba (mba : List Mba)
  | actual (mba : Option (List Mba))
  | classId (c : Nat)
  | tasks (l : List Nat)
deriving DecidableEq

/-- A call of the library on allocation. -/
def allocCall {σ : Type} (b : PidBackend σ) : AllocCall → EStateM Err σ AllocReply
  | .l3caSet socket ca => (fun _ => .done) <$> pqosL3caSet b.toBackend socket ca
  | .l3caGet socket maxNumCa => .l3ca <$> pqosL3caGet b.toBackend socket maxNumCa
  | .l2caSet l2id ca => (fun _ => .done) <$> pqosL2caSet b.toBackend l2id ca
  | .l2caGet l2id maxNumCa => .l2ca <$> pqosL2caGet b.toBackend l2id maxNumCa
  | .mbaSet socket requested want => .actual <$> pqosMbaSet b.toBackend socket requested want
  | .mbaGet socket maxNumCos => .mba <$> pqosMbaGet b.toBackend socket maxNumCos
  | .assocSet lcore classId => (fun _ => .done) <$> pqosAllocAssocSet b.toBackend lcore classId
  | .assocGet lcore => .classId <$> pqosAllocAssocGet b.toBackend lcore
  | .assign technology cores => .classId <$> pqosAllocAssign b.toBackend technology cores
  | .release cores => (fun _ => .done) <$> pqosAllocRelease b.toBackend cores
  | .assocSetPid task classId => (fun _ => .done) <$> pqosAllocAssocSetPid b task classId
  | .assocGetPid task => .classId <$> pqosAllocAssocGetPid b task
  | .assignPid technology tasks => .classId <$> pqosAllocAssignPid b.toBackend technology tasks
  | .releasePid tasks => (fun _ => .done) <$> pqosAllocReleasePid b.toBackend tasks
  | .pidAssoc classId => .tasks <$> pqosPidGetPidAssoc b classId

end Pqos
