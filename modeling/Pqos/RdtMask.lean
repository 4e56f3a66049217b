import Pqos.Types
import Pqos.Lib.Numbers

/-!
# Masks on rdtset's command line

A parameter is one mask, or a code mask and a data mask with a comma between them. A parser is at a
suffix of its string, and the empty suffix is where the terminator stands: a loop that goes on from
there has read past the end.
-/

namespace Pqos.Rdt

open CText

/-- How a parser ends without a result. -/
inductive Stop
  | einval
  | overread
deriving DecidableEq, Repr

/-- `struct rdt_cfg`: a definition and its technology. -/
inductive RdtCfg
  | l2 (ca : L2ca)
  | l3 (ca : L3ca)
  | mba (ca : Mba)
deriving DecidableEq

/-! ## Contiguity -/

/-- Clear the lowest bit as long as there is one. No mask has more than 64. -/
def bitsCountFrom : Nat → Word → Nat
  | 0, _ => 0
  | n + 1, m => if m = 0 then 0 else bitsCountFrom n (m &&& (m - 1)) + 1

def bitsCount (bitmask : Word) : Nat := bitsCountFrom 64 bitmask

/-- The loop over the bits from `i` on, `n` of them, with `j` bits counted. -/
def firstRun (bitmask : Word) (i j : Nat) : Nat → Nat
  | 0 => j
  | n + 1 =>
    if bitmask.getLsbD i then firstRun bitmask (i + 1) (j + 1) n
    else if 0 < j then j
    else firstRun bitmask (i + 1) j n

def isContiguous (bitmask : Word) : Bool :=
  bitmask ≠ 0 ∧ bitsCount bitmask = firstRun bitmask 0 0 64

/-! ## Parsing -/

/-- The number of characters parsed, and the value. -/
def strToUint64 (str : List Char) (base : Nat) : Except Stop (Nat × Nat) :=
  let strStart := str.dropWhile isblank
  if base = 10 ∧ strStart.head?.any (isDigit 10) = false then .error .einval
  else if base = 16 ∧ strStart.head?.any (isDigit 16) = false then .error .einval
  else
    let (value, strEnd) := strtoull base strStart
    if erange base strStart ∨ strEnd = strStart then .error .einval
    else .ok (str.length - strEnd.length, value)

/-- Up to a hexadecimal digit. Nothing but a digit stops the loop. -/
def skipToXdigit : List Char → Except Stop (List Char)
  | [] => .error .overread
  | c :: s => if isDigit 16 c then .ok (c :: s) else skipToXdigit s

/-- The code mask of a pair, and what is after the comma. -/
def parseCodeMask (cbm : List Char) : Except Stop (List Char × Nat) := do
  let cbmStart ← skipToXdigit cbm
  let (offset, cmask) ← strToUint64 cbmStart 16
  match (cbmStart.drop offset).dropWhile isblank with
  | ',' :: rest => return (rest, cmask)
  | _ => throw .einval

/-- The number of characters parsed, the mask, and the code mask, which stays what it was when
there is one mask only. -/
def parseMaskSet (cbm : List Char) (forceDualMask : Bool) (cmask : Nat) :
    Except Stop (Nat × Nat × Nat) := do
  let (cbmStart, cmask) ←
    if cbm.head? = some '(' ∨ forceDualMask then parseCodeMask cbm else pure (cbm, cmask)
  let (offset, mask) ← strToUint64 cbmStart 16
  return (cbm.length - cbmStart.length + offset, mask, cmask)

/-- Both readings of the union's first word. -/
def setWaysMask (u : L3Masks) (mask : Word) : L3Masks :=
  match u with
  | .ways _ => .ways mask
  | .s _ c => .s mask c

def rdtCaStrToCbm (param : List Char) (ca : RdtCfg) : Except Stop RdtCfg := do
  if let .mba _ := ca then throw .einval
  let forceDualMask := (strchr ',' param).isSome
  let (_, mask, mask2) ← parseMaskSet param forceDualMask 0
  if mask = 0 ∨ isContiguous (BitVec.ofNat 64 mask) = false then throw .einval
  match ca with
  | .l2 ca =>
    if mask2 ≠ 0 then throw .einval
    return .l2 { ca with waysMask := BitVec.ofNat 32 mask }
  | .l3 ca =>
    if mask2 ≠ 0 ∧ isContiguous (BitVec.ofNat 64 mask2) = false then throw .einval
    if mask2 ≠ 0 then
      return .l3 { ca with u := .s (BitVec.ofNat 64 mask) (BitVec.ofNat 64 mask2) }
    else return .l3 { ca with u := setWaysMask ca.u (BitVec.ofNat 64 mask) }
  | .mba _ => throw .einval

end Pqos.Rdt
