import Pqos.Lib.Refine
import Pqos.OsTasks
import Pqos.Rdtset

/-!
# A run of rdtset

Once the library is initialised the tool moves cores to class 0 where that was asked for, configures
classes and runs the command. What undoes the configuration is registered to run when the process
exits, so it runs at the end of a command and after some of the failures: not after one of the
configuration, which undoes itself, and not where tasks were configured and are to stay so.
-/

namespace Pqos

open Prog

section Run

variable {σ : Type} (p : Platform) (b : PidBackend σ)

variable (a : RdtsetArgs) (cmdStatus : ExitStatus) (affinity : Nat → Bool) (others : List AllocCall)

end Run

end Pqos
