import Pqos.OsTasks

/-!
# Locking data in the L3 cache

On every socket one class is given the lowest ways, as many as the data takes, and the other classes
lose those ways. While a core of that class reads the data it is placed there. What the classes had
is kept, to be put back at the end.
-/

namespace Pqos

open Prog

def L3Masks.give (mask : Word) : L3Masks → L3Masks
  | .ways _ => .ways mask
  | .s _ _ => .s mask mask

section Dlock

variable {σ : Type} (p : Platform) (b : PidBackend σ)

end Dlock

end Pqos
