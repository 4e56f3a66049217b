import Pqos.OsTasks
import Pqos.Lib.Refine

/-!
# What allocation is for

A store that has a class for each core and each task, and for each class its ways of each cache and
its share of each memory bandwidth. A call that sets something replaces that and leaves the rest
alone, one that gets something answers what was put there last, and one that assigns a class takes
one that is in no use. A call that fails may have done part of what it was asked for.
-/

namespace Pqos

open Refine

/-- What is not on the machine is `none`: a core, a task, a class on a socket or an L2 cluster. -/
@[ext]
structure Store where
  cos : Nat → Option Nat
  task : Nat → Option Nat
  l3 : Nat × Nat → Option L3Masks
  l2 : Nat × Nat → Option (BitVec 32)
  mba : Nat × Nat → Option Nat

/-- The masks as a class keeps them: under CDP two. -/
def L3Masks.held (cdpOn : Bool) (m : L3Masks) : L3Masks :=
  if cdpOn then .s m.dataMask m.codeMask else .ways m.dataMask

namespace Store

def putL3 (cdpOn : Bool) (socket : Nat) (ca : L3ca) (a : Store) : Store :=
  { a with l3 := Function.update a.l3 (socket, ca.classId) (some (ca.u.held cdpOn)) }

/-- With two masks, the one for data is set first. -/
def halfL3 (cdpOn : Bool) (socket : Nat) (ca : L3ca) (a a' : Store) : Prop :=
  cdpOn = true ∧ a' = { a with
    l3 := Function.update a.l3 (socket, ca.classId)
      ((a.l3 (socket, ca.classId)).map fun m => .s ca.u.dataMask m.codeMask) }

def putL2 (l2id : Nat) (ca : L2ca) (a : Store) : Store :=
  { a with l2 := Function.update a.l2 (l2id, ca.classId) (some ca.waysMask) }

def putMba (rate : Nat → Nat) (socket : Nat) (r : Mba) (a : Store) : Store :=
  { a with mba := Function.update a.mba (socket, r.classId) (some (rate r.mbRate)) }

/-- Those of `l` that are on the machine move to class `c`. -/
def moved (m : Nat → Option Nat) (l : List Nat) (c : Nat) (k : Nat) : Option Nat :=
  if k ∈ l then (m k).map fun _ => c else m k

def move (c : Nat) (l : List Nat) (a : Store) : Store := { a with cos := moved a.cos l c }

def moveTasks (c : Nat) (l : List Nat) (a : Store) : Store := { a with task := moved a.task l c }

/-- No core of `scope` and no task has class `c`. -/
def Unused (scope : Nat → Prop) (c : Nat) (a : Store) : Prop :=
  c ≠ 0 ∧ (∀ k, scope k → a.cos k ≠ some c) ∧ ∀ t, a.task t ≠ some c

end Store

/-- What the platform settles: whether L3 classes have two masks, what becomes of a rate, and which
cores share what a technology divides. -/
structure StoreRules where
  cdpOn : Bool
  rate : Nat → Nat
  near : Nat → Nat → Nat → Prop

/-- An assignment takes an unused class for all it is given, or fails before it or on the way. -/
def Assigns (unused : Nat → Store → Prop) (move : Nat → List Nat → Store → Store) (l : List Nat)
    (a : Store) (r : Except Err Nat) (a' : Store) : Prop :=
  (∀ c, r = .ok c → unused c a ∧ a' = move c l a)
    ∧ ∀ e, r = .error e → a' = a ∨ ∃ c pre, unused c a ∧ pre <+: l ∧ a' = move c pre a

/-- What each call may answer and leave behind. -/
def allocService (rules : StoreRules) : AllocCall → Store → Except Err AllocReply → Store → Prop
  | .l3caSet socket ca =>
    Wraps (fun _ : Unit => .done)
      (SetsAll (Store.putL3 rules.cdpOn socket) (Store.halfL3 rules.cdpOn socket) ca fun _ => True)
  | .l3caGet socket _ =>
    Wraps .l3ca (Reads fun a (tab : List L3ca) => ∀ k, tab[k]? = (a.l3 (socket, k)).map (L3ca.mk k))
  | .l2caSet l2id ca =>
    Wraps (fun _ : Unit => .done) (SetsAll (Store.putL2 l2id) whole ca fun _ => True)
  | .l2caGet l2id _ =>
    Wraps .l2ca (Reads fun a (tab : List L2ca) => ∀ k, tab[k]? = (a.l2 (l2id, k)).map (L2ca.mk k))
  | .mbaSet socket requested want =>
    Wraps .actual (SetsAll (Store.putMba rules.rate socket) whole requested fun actual =>
      actual = if want then some (requested.map fun r => ⟨r.classId, rules.rate r.mbRate⟩)
        else none)
  | .mbaGet socket _ =>
    Wraps .mba (Reads fun a (tab : List Mba) => ∀ k, tab[k]? = (a.mba (socket, k)).map (Mba.mk k))
  | .assocSet lcore classId => Wraps (fun _ : Unit => .done) (Sets (Store.move classId [lcore]))
  | .assocGet lcore => Wraps .classId (Reads fun a c => a.cos lcore = some c)
  | .assign technology l =>
    Wraps .classId
      (Assigns (Store.Unused fun k => ∃ core ∈ l, rules.near technology core k) Store.move l)
  | .release l => Wraps (fun _ : Unit => .done) (SetsSome (fun core => Store.move 0 [core]) l)
  | .assocSetPid task classId =>
    Wraps (fun _ : Unit => .done) (Sets (Store.moveTasks classId [task]))
  | .assocGetPid task => Wraps .classId (Reads fun a c => a.task task = some c)
  | .assignPid _ l => Wraps .classId (Assigns (Store.Unused fun _ => True) Store.moveTasks l)
  | .releasePid l =>
    Wraps (fun _ : Unit => .done)
      (SetsAll (fun task => Store.moveTasks 0 [task]) whole l fun _ => True)
  | .pidAssoc classId =>
    Wraps .tasks (Reads fun a (l : List Nat) => ∀ t, t ∈ l ↔ a.task t = some classId)

/-! ## Places -/

/-- Where the store keeps something. -/
inductive Place
  | core (lcore : Nat)
  | task (t : Nat)
  | l3 (socket classId : Nat)
  | l2 (l2id classId : Nat)
  | mba (socket classId : Nat)
deriving DecidableEq

inductive Content
  | cos (c : Nat)
  | l3 (m : L3Masks)
  | l2 (mask : BitVec 32)
  | mba (rate : Nat)
deriving DecidableEq

def Store.lookup (a : Store) : Place → Option Content
  | .core lcore => (a.cos lcore).map .cos
  | .task t => (a.task t).map .cos
  | .l3 socket c => (a.l3 (socket, c)).map .l3
  | .l2 l2id c => (a.l2 (l2id, c)).map .l2
  | .mba socket c => (a.mba (socket, c)).map .mba

/-- The places that a call may change, whether it succeeds or not. -/
def AllocCall.places : AllocCall → List Place
  | .l3caSet socket ca => ca.map fun e => .l3 socket e.classId
  | .l2caSet l2id ca => ca.map fun e => .l2 l2id e.classId
  | .mbaSet socket requested _ => requested.map fun r => .mba socket r.classId
  | .assocSet lcore _ => [.core lcore]
  | .assign _ l => l.map .core
  | .release l => l.map .core
  | .assocSetPid t _ => [.task t]
  | .assignPid _ l => l.map .task
  | .releasePid l => l.map .task
  | .l3caGet .. | .l2caGet .. | .mbaGet .. | .assocGet _ | .assocGetPid _ | .pidAssoc _ => []

end Pqos
