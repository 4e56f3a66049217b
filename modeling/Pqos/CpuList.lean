import Pqos.RdtMask

/-!
# CPU lists on rdtset's command line

A set of CPUs is written as numbers and ranges with commas between them. The parser is at a suffix
of its copy of the string. The printer writes into a buffer, and a write outside of it is a fault.
-/

namespace Pqos.Rdt

open CText

/-- `CPU_SETSIZE`. -/
def cpuSetsize : Nat := 1024

/-- `cpu_set_t`. -/
abbrev CpuSet := BitVec 1024

/-- `CPU_SET` for each number from `lo` to `hi`. -/
def cpuSetRange (cpuset : CpuSet) (lo hi : Nat) : CpuSet :=
  (List.range' lo (hi + 1 - lo)).foldl (fun set idx => set ||| 1#1024 <<< idx) cpuset

/-- What a turn of the loop in `str_to_cpuset` leaves. -/
inductive Turn
  | again (str : List Char) (min : Nat) (cpuset : CpuSet)
  | done (strEnd : List Char) (cpuset : CpuSet)

/-- A turn of the loop: `min` is the start of a range that is not finished, `CPU_SETSIZE` where
there is none. -/
def cpusetTurn (str : List Char) (min : Nat) (cpuset : CpuSet) : Except Stop Turn :=
  let str := str.dropWhile isblank
  if str.head?.any (isDigit 10) = false then .error .einval
  else
    let idx := (strtoull 10 str).1 % 2 ^ 32
    let strEnd := (strtoull 10 str).2
    if erange 10 str ∨ strEnd = str ∨ cpuSetsize ≤ idx then .error .einval
    else
      let first := if min = cpuSetsize then idx else min
      match strEnd.dropWhile isblank with
      | '-' :: rest => if min = cpuSetsize then .ok (.again rest idx cpuset) else .error .einval
      | ',' :: rest => .ok (.again rest cpuSetsize
          (cpuSetRange cpuset (Nat.min first idx) (Nat.max first idx)))
      | [] => .ok (.done [] (cpuSetRange cpuset (Nat.min first idx) (Nat.max first idx)))
      | _ => .error .einval

theorem cpusetTurn_again_lt {str rest : List Char} {min min' : Nat} {cpuset cpuset' : CpuSet}
    (h : cpusetTurn str min cpuset = .ok (.again rest min' cpuset')) :
    rest.length < str.length := by
  have hstart : (str.dropWhile isblank).length ≤ str.length :=
    (List.dropWhile_suffix isblank).length_le
  have hnum := (strtoull_suffix 10 (str.dropWhile isblank)).length_le
  have hend :=
    (List.dropWhile_suffix (l := (strtoull 10 (str.dropWhile isblank)).2) isblank).length_le
  unfold cpusetTurn at h
  dsimp only at h
  split_ifs at h
  all_goals
    split at h
    all_goals
      rename_i heq
      simp only [Except.ok.injEq, Turn.again.injEq, reduceCtorEq] at h
    all_goals
      rw [heq, List.length_cons, h.1] at hend
      omega

def strToCpusetFrom (str : List Char) (min : Nat) (cpuset : CpuSet) :
    Except Stop (List Char × CpuSet) :=
  match _h : cpusetTurn str min cpuset with
  | .error e => .error e
  | .ok (.done strEnd cpuset) => .ok (strEnd, cpuset)
  | .ok (.again str min cpuset) => strToCpusetFrom str min cpuset
termination_by str.length
decreasing_by exact cpusetTurn_again_lt _h

/-- The number of characters parsed, and the set. -/
def strToCpuset (cpustr : List Char) (cpustrLen : Nat) : Except Stop (Nat × CpuSet) :=
  let buff := cpustr.take cpustrLen
  if cpustrLen = 0 ∨ (buff.dropWhile isblank).head?.any (isDigit 10) = false then .error .einval
  else (strToCpusetFrom (buff.dropWhile isblank) cpuSetsize 0).map fun r =>
    (buff.length - r.1.length, r.2)

/-! ## Printing -/

def nul : Char := Char.ofNat 0

/-- An unsigned difference. -/
def usub (a b : Nat) : Nat := (a + 2 ^ 32 - b) % 2 ^ 32

/-- Write at `pos`, if the buffer has all the places. -/
def store (buff : List Char) (pos : Int) (text : List Char) : Option (List Char) :=
  if 0 ≤ pos ∧ pos + text.length ≤ buff.length then
    some (buff.take pos.toNat ++ text ++ buff.drop (pos.toNat + text.length))
  else none

/-- Write what fits `size` places of `text` and a terminator. -/
def snprintf (buff : List Char) (pos size : Nat) (text : List Char) : Option (List Char) :=
  if size = 0 then some buff else store buff pos (text.take (size - 1) ++ [nul])

/-- The loop of `cpuset_to_str` over the CPUs that are left, with `len` characters printed. -/
def cpusetToStrFrom (cpustrLen : Nat) (cpuset : CpuSet) :
    List Nat → List Char → Nat → Option (List Char × Nat)
  | [], cpustr, len => some (cpustr, len)
  | j :: js, cpustr, len =>
    if cpuset.getLsbD j = false then cpusetToStrFrom cpustrLen cpuset js cpustr len
    else
      let item := Nat.toDigits 10 j ++ [',']
      (snprintf cpustr len (usub (usub cpustrLen len) 1) item).bind fun cpustr =>
        if usub cpustrLen 1 ≤ len + item.length then
          (store cpustr ((cpustrLen : Int) - 4) ['.', '.', '.']).map fun cpustr =>
            (cpustr, cpustrLen)
        else cpusetToStrFrom cpustrLen cpuset js cpustr (len + item.length)

/-- The buffer after printing, its last character overwritten; none when a write is out of
bounds. -/
def cpusetToStr (cpustrLen : Nat) (cpuset : CpuSet) : Option (List Char) :=
  (cpusetToStrFrom cpustrLen cpuset (List.range cpuSetsize)
    (List.replicate cpustrLen nul) 0).bind fun r => store r.1 (usub r.2 1) [nul]

end Pqos.Rdt
