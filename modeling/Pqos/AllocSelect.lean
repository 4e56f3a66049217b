import Pqos.Api
import Pqos.NumberList

/-!
# Class definitions set by pqos

The option `-e` sets a class on a list of sockets. A letter behind the class says whether the mask
is the one for code or the one for data. The class is read on each socket, given the mask, and
written back; the first socket where that does not work ends the loop. Until then the definitions of
all options are kept as text in a table of a fixed size.
-/

namespace Pqos

open CText Prog

/-- Which masks of a class are set. -/
inductive UpdateScope
  | both | data | code
deriving DecidableEq, Repr

/-- The scope and the class that a class's text says. A class is kept in 32 bits. -/
def parseCosMaskType (str : List Char) : Except Halt (UpdateScope × Nat) :=
  let last := str.getLast?
  if 1 < str.length ∧ (last = some 'c' ∨ last = some 'C') then do
    let id ← Main.strtouint64 str.dropLast
    return (.code, id % 2 ^ 32)
  else if 1 < str.length ∧ (last = some 'd' ∨ last = some 'D') then do
    let id ← Main.strtouint64 str.dropLast
    return (.data, id % 2 ^ 32)
  else do
    let id ← Main.strtouint64 str
    return (.both, id % 2 ^ 32)

/-- A class with the mask in place of those in the scope. Without CDP there is one mask. -/
def L3ca.withMask (ca : L3ca) (scope : UpdateScope) (mask : Word) : L3ca :=
  match ca.u with
  | .ways _ => { ca with u := .ways mask }
  | .s dataMask codeMask =>
    let dataMask := if scope = .code then dataMask else mask
    let codeMask := if scope = .data then codeMask else mask
    { ca with u := .s dataMask codeMask }

section Set

variable {σ : Type} (b : Backend σ) (classId : Nat) (mask : Word) (scope : UpdateScope)

/-- One turn of the loop. Whatever goes wrong ends it. -/
def setL3CosOn (socket : Nat) : EStateM Err σ Unit := do
  let sockL3ca ← pqosL3caGet b socket pqosMaxL3caCos
  let ca ← ofOption .param (sockL3ca.find? fun ca => ca.classId = classId)
  failIf (ca.cdp = false ∧ scope ≠ .both) .error
  pqosL3caSet b socket [ca.withMask scope mask]

/-- The number of sockets that were set, with the state it ends in. -/
def setL3CosLoop : List Nat → σ → Nat × σ
  | [], s => (0, s)
  | socket :: sockIds, s =>
    match (setL3CosOn b classId mask scope socket).run s with
    | .ok _ t => ((setL3CosLoop sockIds t).1 + 1, (setL3CosLoop sockIds t).2)
    | .error _ t => (0, t)

end Set

/-- What the setter returns, the number of settings modified so far, and the library's state. -/
structure CosSet (σ : Type) where
  ret : Int
  selAllocMod : BitVec 32
  lib : σ

def setL3Cos {σ : Type} (b : Backend σ) (classId : Nat) (mask : Word) (sockIds : Option (List Nat))
    (scope : UpdateScope) (selAllocMod : BitVec 32) (s : σ) : CosSet σ :=
  match sockIds with
  | none => ⟨-1, selAllocMod, s⟩
  | some ids =>
    if mask = 0 then ⟨-1, selAllocMod, s⟩
    else
      let (set, t) := setL3CosLoop b classId mask scope ids s
      ⟨if set < ids.length then -1 else (BitVec.ofNat 32 set).toInt,
        selAllocMod + BitVec.ofNat 32 set, t⟩

/-! ## The table of definitions -/

/-- The table of definitions, of which so many are used. -/
structure AllocOpts where
  allocOpts : List (Option (List Char))
  selAllocOptNum : Nat
deriving DecidableEq, Repr

def noAllocOpts : AllocOpts := { allocOpts := List.replicate 32 none, selAllocOptNum := 0 }

/-- The next entry of the table is stored. Nothing compares it with the table's end. -/
def storeAllocOpt (tab : AllocOpts) (token : List Char) : Except Halt AllocOpts :=
  if tab.selAllocOptNum < tab.allocOpts.length then
    .ok { allocOpts := tab.allocOpts.set tab.selAllocOptNum (some token)
          selAllocOptNum := tab.selAllocOptNum + 1 }
  else .error .overrun

/-- The option `-e`. -/
def selfnAllocationClass (tab : AllocOpts) (arg : List Char) : Except Halt AllocOpts :=
  if arg = [] then .error .exit else (strtok ';' arg).foldlM storeAllocOpt tab

section SetAlloc

variable {σ : Type} (setAllocationClass : List Char → BitVec 32 → σ → CosSet σ) (tab : AllocOpts)

/-- What was stored in an entry, if anything was. -/
def readAllocOpt (i : Nat) : Option (List Char) := tab.allocOpts[i]?.join

/-- The loop over the entries, until a definition cannot be set, with what that returned. -/
def setAllocFrom : List Nat → CosSet σ → Option (CosSet σ)
  | [], st => some st
  | i :: entries, st => do
    let opt ← readAllocOpt tab i
    let st := setAllocationClass opt st.selAllocMod st.lib
    if st.ret ≤ 0 then some st else setAllocFrom entries st

/-- The definitions are set one after another, and all of them freed. There is no result where an
entry is read that nothing was stored in. -/
def setAlloc (selAllocMod : BitVec 32) (s : σ) : Option (CosSet σ) :=
  if tab.selAllocOptNum = 0 then some ⟨0, selAllocMod, s⟩
  else do
    let st ← setAllocFrom setAllocationClass tab (List.range tab.selAllocOptNum)
        ⟨-1, selAllocMod, s⟩
    let _freed ← (List.range tab.selAllocOptNum).mapM (readAllocOpt tab)
    some { st with ret := if st.ret ≤ 0 then -1 else st.selAllocMod.toInt }

end SetAlloc

end Pqos
