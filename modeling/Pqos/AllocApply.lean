import Pqos.AllocSelect
import Pqos.AssocSelect
import Pqos.OsTasks

/-!
# What pqos applies

A definition of option `-e` names what it sets, on which sockets or L2 clusters, and then classes
with their values. It is read while it is applied: what stands before a part that cannot be read, or
cannot be set, has been set by then. The associations of option `-a` follow the definitions.
-/

namespace Pqos

open CText Prog

inductive SelAllocType
  | l3ca | l2ca | mba
deriving DecidableEq, Repr

/-- What a run changes: the library's state and the number of settings made. -/
structure PqosRun (σ : Type) where
  lib : σ
  selAllocMod : BitVec 32

section Setters

variable {σ : Type} (b : Backend σ)

/-- The number of ids that a setter's loop got done, up to the first that fails, with the state it
ends in. -/
def setCosLoop (turn : Nat → EStateM Err σ Unit) : List Nat → σ → Nat × σ
  | [], s => (0, s)
  | id :: ids, s =>
    match (turn id).run s with
    | .ok _ t => ((setCosLoop turn ids t).1 + 1, (setCosLoop turn ids t).2)
    | .error _ t => (0, t)

def setCos (turn : Nat → EStateM Err σ Unit) (value : Word) (ids : List Nat)
    (selAllocMod : BitVec 32) (s : σ) : CosSet σ :=
  if value = 0 then ⟨-1, selAllocMod, s⟩
  else
    let (set, t) := setCosLoop turn ids s
    ⟨if set < ids.length then -1 else (BitVec.ofNat 32 set).toInt,
      selAllocMod + BitVec.ofNat 32 set, t⟩

/-- A class has its ways of an L2 in 32 bits. -/
def setL2CosOn (classId : Nat) (mask : Word) (l2id : Nat) : EStateM Err σ Unit :=
  pqosL2caSet b l2id [⟨classId, mask.setWidth 32⟩]

def setL2Cos (classId : Nat) (mask : Word) (l2Ids : List Nat) (selAllocMod : BitVec 32) (s : σ) :
    CosSet σ := setCos (setL2CosOn b classId mask) mask l2Ids selAllocMod s

/-- A rate has 32 bits as well. -/
def setMbaCosOn (classId : Nat) (availableBw : Word) (socket : Nat) : EStateM Err σ Unit := do
  let _ ← pqosMbaSet b socket [⟨classId, (availableBw.setWidth 32).toNat⟩] true
  return

def setMbaCos (classId : Nat) (availableBw : Word) (sockIds : List Nat) (selAllocMod : BitVec 32)
    (s : σ) : CosSet σ :=
    setCos (setMbaCosOn b classId availableBw) availableBw sockIds selAllocMod s

end Setters

/-! ## A definition -/

/-- The parts of a definition's text. -/
structure ClassText where
  type : List Char
  resIds : Option (List Char)
  cos : List Char
deriving DecidableEq

/-- The colon and the at sign, if there is one, are overwritten where they are, whichever comes
first. -/
def classText (str : List Char) : Option ClassText := do
  let (head, tail) ← strchr ':' str
  match strchr '@' str with
  | none => some ⟨head, none, tail⟩
  | some (l, r) =>
    if '@' ∈ head then some ⟨l, some (strsep ':' r).1, tail⟩
    else some ⟨head, some r, (strsep '@' tail).1⟩

def selAllocType (str : List Char) : Option SelAllocType :=
  if strcasecmp str "llc".toList then some .l3ca
  else if strcasecmp str "l2".toList then some .l2ca
  else if strcasecmp str "mba".toList then some .mba
  else none

/-- The room for ids, and the bound that they stay below. -/
def maxResSz : Nat := 32

section Definition

variable {σ : Type} (b : Backend σ) (cpu : CpuInfo)

/-- A setter, with the count that it adds to. -/
def cosSetter (f : BitVec 32 → σ → CosSet σ) : EStateM Halt (PqosRun σ) Int := fun s =>
  let st := f s.selAllocMod s.lib
  .ok st.ret ⟨st.lib, st.selAllocMod⟩

/-- A class and its value. Like the setters it returns what is not positive where something is
wrong. -/
def setAllocationCos (type : SelAllocType) (resIds : Option (List Nat)) (str : List Char) :
    EStateM Halt (PqosRun σ) Int :=
  match strchr '=' str with
  | none => return -1
  | some (cls, value) => do
    let (updateScope, classId) ← ofExcept (parseCosMaskType cls)
    let value ← ofExcept (Main.strtouint64 value)
    let mask := BitVec.ofNat 64 value
    match type with
    | .mba => cosSetter (setMbaCos b classId mask (resIds.getD cpu.getSockets))
    | .l2ca => do
      failIf (updateScope ≠ .both) .exit
      cosSetter (setL2Cos b classId mask (resIds.getD cpu.getL2ids))
    | .l3ca => cosSetter (setL3Cos b classId mask (some (resIds.getD cpu.getSockets)) updateScope)

/-- The loop over the classes, with what the last one returned. -/
def setAllocationTokens (type : SelAllocType) (resIds : Option (List Nat)) :
    List (List Char) → Int → EStateM Halt (PqosRun σ) Int
  | [], ret => return ret
  | token :: tokens, _ => do
    let ret ← setAllocationCos b cpu type resIds token
    if ret ≤ 0 then return ret else setAllocationTokens type resIds tokens ret

def setAllocationType (resIds : Option (List Nat)) (t : ClassText) : EStateM Halt (PqosRun σ) Int :=
  match selAllocType t.type with
  | none => return -1
  | some type => setAllocationTokens b cpu type resIds (strtok ',' t.cos) (-1)

def setAllocationClass (str : List Char) : EStateM Halt (PqosRun σ) Int :=
  match classText str with
  | none => return -1
  | some t =>
    match t.resIds with
    | none => setAllocationType b cpu none t
    | some list => do
      let ids ← ofExcept (Main.strlisttotab list maxResSz)
      if ids = [] ∨ ∃ id ∈ ids, maxResSz ≤ id then return -1
      else setAllocationType b cpu (some ids) t

end Definition

/-! ## All of them -/

/-- The library's state, and whether the process has ended. -/
structure Tool (σ : Type) where
  lib : σ
  halted : Option Halt

/-- A step that may end the process, as one that returns. -/
def haltable {σ : Type} (x : EStateM Halt (PqosRun σ) Int) (selAllocMod : BitVec 32) (s : Tool σ) :
    CosSet (Tool σ) :=
  match x.run ⟨s.lib, selAllocMod⟩ with
  | .ok ret t => ⟨ret, t.selAllocMod, ⟨t.lib, none⟩⟩
  | .error e t => ⟨-1, t.selAllocMod, ⟨t.lib, some e⟩⟩

section Apply

variable {σ : Type} (p : Platform) (b : PidBackend σ) (tab : AllocOpts) (sel : SelAssocs)

def setAllocOpts : EStateM Halt (PqosRun σ) Int := fun s =>
  match setAlloc (fun str => haltable (setAllocationClass b.toBackend p.cpu str)) tab s.selAllocMod
    ⟨s.lib, none⟩ with
  | none => .error .overrun s
  | some st =>
    match st.lib.halted with
    | some e => .error e ⟨st.lib.lib, st.selAllocMod⟩
    | none => .ok st.ret ⟨st.lib.lib, st.selAllocMod⟩

/-- No task has a negative id. -/
def setTaskAssoc (a : SelAssoc Int) : EStateM Err σ Unit :=
  match a.id with
  | .ofNat task => pqosAllocAssocSetPid b task a.classId
  | .negSucc _ => throw .param

def setAssocs : EStateM Err σ Unit := do
  sel.selAssocTab.forM fun a => pqosAllocAssocSet b.toBackend a.id a.classId
  sel.selAssocPidTab.forM (setTaskAssoc b)

/-- Up to the first association that fails. -/
def setAllocationAssoc : EStateM Halt (PqosRun σ) Int := fun s =>
  match (setAssocs b sel).run s.lib with
  | .ok _ t =>
    .ok ((sel.selAssocTab.length ||| sel.selAssocPidTab.length : Nat) : Int) { s with lib := t }
  | .error _ t => .ok (-1) { s with lib := t }

/-- 1 if something was set, 0 if there was nothing to set. -/
def allocApply : EStateM Halt (PqosRun σ) Int :=
  if (p.capGetType CapItem.l3ca?).isOk ∨ (p.capGetType CapItem.l2ca?).isOk
      ∨ (p.capGetType CapItem.mba?).isOk then do
    let retCos ← setAllocOpts p b tab
    if retCos < 0 then return -1
    else do
      let retAssoc ← setAllocationAssoc b sel
      if retAssoc < 0 then return -1
      else if 0 < retAssoc ∨ 0 < retCos then return 1
      else return 0
  else if sel.selAssocTab ≠ [] ∨ 0 < tab.selAllocOptNum ∨ sel.selAssocPidTab ≠ [] then return -1
  else return 0

/-- A run with options `-e` and `-a`. -/
def pqosAlloc (classArgs assocArgs : List (List Char)) : EStateM Halt (PqosRun σ) Int := do
  let tab ← ofExcept (classArgs.foldlM selfnAllocationClass noAllocOpts)
  let sel ← ofExcept (assocArgs.foldlM selfnAllocationAssoc noneAssociated)
  allocApply p b tab sel

end Apply

end Pqos
