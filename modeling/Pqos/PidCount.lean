import Pqos.MonApi

/-!
# The count of a process

The library reads the instructions of a process from a descriptor in the group that it never opens.
The tool opens one, in the loop that reports, and stores it in the group behind the library's back.
-/

namespace Pqos

open Prog

/-- A call of the library, or the tool that opens a counter for a group. -/
inductive MonStep
  | call (c : MonLibCall HwMem)
  | opens (g fd : Nat)

/-- The tool stores the descriptor it got, and exits where it got none. -/
def openIns {σ : Type} (g fd : Nat) (s : HwMon σ) : HwMon σ :=
  s.setGroup g { s.groups g with
    polled := { (s.groups g).polled with
      values := { (s.groups g).polled.values with fdIns := fd } } }

section Runs

variable {σ : Type} (p : Platform) (hw : CounterHw σ)

def MonStep.apply (s : HwMon σ) : MonStep → HwMon σ
  | .call c => final (((hwMonBackend p hw).call c).run s)
  | .opens g fd => openIns g fd s

/-- The state after the first `n` of a sequence of steps. -/
def stepped (steps : Nat → MonStep) (s : HwMon σ) : Nat → HwMon σ
  | 0 => s
  | n + 1 => (steps n).apply p hw (stepped steps s n)

/-- The descriptors opened for a group since its start after a step, of those before it. -/
def MonStep.opened (g : Nat) (s : HwMon σ) (fds : List Nat) : MonStep → List Nat
  | .call c =>
    if c.starts = some g ∧ value (((hwMonBackend p hw).call c).run s) = some () then [] else fds
  | .opens g' fd => if g' = g then fd :: fds else fds

/-- The descriptors opened for a group since its last start that succeeded, the last first. -/
def openedFor (steps : Nat → MonStep) (s : HwMon σ) (g : Nat) : Nat → List Nat
  | 0 => []
  | n + 1 => (steps n).opened p hw g (stepped p hw steps s n) (openedFor steps s g n)

/-- In step `n`, a call that the library accepts, the poll of `g` begins in state `t`. -/
def PollBegins (steps : Nat → MonStep) (s : HwMon σ) (n g : Nat) (t : HwMon σ) : Prop :=
  ∃ before after, steps n = .call (.poll (before ++ g :: after))
    ∧ value (((hwMonBackend p hw).pqosMonPoll (before ++ g :: after)).run (stepped p hw steps s n))
      = some ()
    ∧ t = final ((before.forM (hwPollGroup p hw)).run (stepped p hw steps s n))

end Runs

end Pqos
