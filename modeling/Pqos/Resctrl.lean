import Pqos.Lib.CText
import Pqos.Allocation

/-!
# The files of a class

A class on the OS interface is a directory of the resctrl file system with three files. Its
`schemata` file has one line for each resource, with the class's mask or rate for each of its ids;
the structure it is read into already has its shape, and a line sets the values it names. Its `cpus`
file is a mask in hexadecimal, and its `tasks` file a list of task ids. What the kernel makes of an
access is a parameter.
-/

namespace Pqos

open CText Prog

inductive RctlFile
  | cpus | schemata | tasks
deriving DecidableEq, Repr

/-- The resctrl file system in a kernel whose state is `κ`: reading and writing a file of a class,
from opening it to closing it, and which tasks there are. -/
structure Resctrl (κ : Type) where
  read : Nat → RctlFile → EStateM Unit κ (List Char)
  write : Nat → RctlFile → List Char → EStateM Unit κ Unit
  taskExists : κ → Nat → Bool

/-! ## Schemata -/

/-- The size of the buffer a line is read into. -/
def lineSize : Nat := 16 * 1024

/-- The class's definition on every L3 id, L2 id and socket, in the order of the ids. -/
structure Schemata where
  l3ca : List L3ca
  l2ca : List L2ca
  mba : List Mba
deriving DecidableEq

inductive SchemataType
  | none | l2 | l3 | l3code | l3data | mb
deriving DecidableEq

def strtouint64 (s : List Char) (base : Nat) : Except Err Nat :=
  let hex : Bool := strcasecmp (s.take 2) ['0', 'x']
  let t := if hex then s.drop 2 else s
  let (value, endptr) := strtoull (if hex then 16 else base) t
  if t ≠ [] ∧ (endptr = [] ∨ endptr.head? = some '\n') then .ok value else .error .error

def schemataTypeGet (str : List Char) : SchemataType :=
  if strcasecmp str "L2".toList then .l2
  else if strcasecmp str "L3".toList then .l3
  else if strcasecmp str "L3CODE".toList then .l3code
  else if strcasecmp str "L3DATA".toList then .l3data
  else if strcasecmp str "MB".toList then .mb
  else .none

/-- Replace the entry of `resId` by `f` of it, unless there is none or `ok` refuses it. -/
def setEntry {α : Type} (ok : α → Bool) (f : α → α) (resId : Nat) (l : List α) :
    Except Err (List α) :=
  match l[resId]? with
  | none => .error .error
  | some a => if ok a then .ok (l.set resId (f a)) else .error .error

/-! A value is 64 bits wide; an L2 mask and a rate take its low 32. -/

def L2ca.withMask (value : Nat) (ca : L2ca) : L2ca := { ca with waysMask := BitVec.ofNat 32 value }

def L3ca.withWays (value : Nat) (ca : L3ca) : L3ca := { ca with u := .ways (BitVec.ofNat 64 value) }

def L3ca.withCode (value : Nat) (ca : L3ca) : L3ca :=
  { ca with u := .s ca.u.dataMask (BitVec.ofNat 64 value) }

def L3ca.withData (value : Nat) (ca : L3ca) : L3ca :=
  { ca with u := .s (BitVec.ofNat 64 value) ca.u.codeMask }

def Mba.withRate (value : Nat) (ca : Mba) : Mba := { ca with mbRate := value % 2 ^ 32 }

def schemataSet (resId value : Nat) (type : SchemataType) (schemata : Schemata) :
    Except Err Schemata :=
  match type with
  | .none => .ok schemata
  | .l2 => (setEntry (fun _ => true) (L2ca.withMask value) resId schemata.l2ca).map fun l =>
      { schemata with l2ca := l }
  | .l3 => (setEntry (fun ca => !ca.cdp) (L3ca.withWays value) resId schemata.l3ca).map fun l =>
      { schemata with l3ca := l }
  | .l3code => (setEntry L3ca.cdp (L3ca.withCode value) resId schemata.l3ca).map fun l =>
      { schemata with l3ca := l }
  | .l3data => (setEntry L3ca.cdp (L3ca.withData value) resId schemata.l3ca).map fun l =>
      { schemata with l3ca := l }
  | .mb => (setEntry (fun _ => true) (Mba.withRate value) resId schemata.mba).map fun l =>
      { schemata with mba := l }

/-- One `id=value` of a line. -/
def schemataReadToken (type : SchemataType) (schemata : Schemata) (token : List Char) :
    Except Err Schemata :=
  match strchr '=' token with
  | none => .error .error
  | some (idText, valueText) => do
    let id ← strtouint64 idText 10
    let value ← strtouint64 valueText (if type = .mb then 10 else 16)
    schemataSet (id % 2 ^ 32) value type schemata

/-- A line with a label the reader does not know is skipped. -/
def schemataReadLine (schemata : Schemata) (buf : List Char) : Except Err Schemata :=
  match strchr ':' ((cstr buf).dropWhile isspace) with
  | none => .error .error
  | some (label, p) =>
    if schemataTypeGet label = .none then .ok schemata
    else (strtok ';' p).foldlM (schemataReadToken (schemataTypeGet label)) schemata

/-- Read the text of a schemata file into `schemata`. -/
def schemataRead (text : List Char) (schemata : Schemata) : Except Err Schemata :=
  (fgets lineSize text).foldlM schemataReadLine schemata

/-- The `id=value` of each value, ids in decimal and values in `base`. -/
def schemataTokens (base : Nat) (values : List Nat) : List (List Char) :=
  values.zipIdx.map fun (value, id) => Nat.toDigits 10 id ++ '=' :: Nat.toDigits base value

def schemataLine (label : String) (base : Nat) (values : List Nat) : List Char :=
  label.toList ++ ':' :: ([';'].intercalate (schemataTokens base values) ++ ['\n'])

/-- A resource without entries has no line. -/
def schemataLinesOf (label : String) (base : Nat) (values : List Nat) : List (List Char) :=
  if values = [] then [] else [schemataLine label base values]

/-- Either all L3 entries are pairs or none is, and the first tells which. -/
def schemataL3Lines (l3ca : List L3ca) : List (List Char) :=
  if l3ca.head?.any L3ca.cdp then
    schemataLinesOf "L3CODE" 16 (l3ca.map fun ca => ca.u.codeMask.toNat)
      ++ schemataLinesOf "L3DATA" 16 (l3ca.map fun ca => ca.u.dataMask.toNat)
  else schemataLinesOf "L3" 16 (l3ca.map fun ca => ca.u.dataMask.toNat)

/-- The lines a schemata structure is written as. -/
def schemataLines (schemata : Schemata) : List (List Char) :=
  schemataLinesOf "L2" 16 (schemata.l2ca.map fun ca => ca.waysMask.toNat)
    ++ schemataL3Lines schemata.l3ca
    ++ schemataLinesOf "MB" 10 (schemata.mba.map Mba.mbRate)

def schemataWrite (schemata : Schemata) : List Char := (schemataLines schemata).flatten

section Init

variable (p : Platform)

/-- An entry for each id of a resource that has the class, none if it has not. -/
def schemataEntries {α : Type} (numCos : Except Err Nat) (classId : Nat) (ids : List Nat)
    (entry : Except Err α) : Except Err (List α) :=
  match numCos with
  | .error _ => .ok []
  | .ok n => if classId < n then entry.map (List.replicate ids.length) else .ok []

def l3caInit (classId : Nat) (cdpOn : Bool) : L3ca := ⟨classId, if cdpOn then .s 0 0 else .ways 0⟩

def schemataInit (classId : Nat) : Except Err Schemata := do
  let l2ca ← schemataEntries p.l2caGetCosNum classId p.cpu.getL2ids (.ok ⟨classId, 0⟩)
  let l3ca ← schemataEntries p.l3caGetCosNum classId p.cpu.getSockets
    (p.l3caCdpEnabled.map (l3caInit classId))
  let mba ← schemataEntries p.mbaGetCosNum classId p.cpu.getSockets (.ok ⟨classId, 100⟩)
  return ⟨l3ca, l2ca, mba⟩

/-- The smaller of two class counts, where the first is 0 before any resource was counted. -/
def lowerGrps (maxGrps numCos : Nat) : Nat :=
  if maxGrps = 0 then numCos else if numCos < maxGrps then numCos else maxGrps

def grpsStep (maxGrps : Nat) (c : Capability) : Except Err Nat :=
  if c.osSupport = false then .ok maxGrps
  else
    match c.u with
    | .mon _ => .ok maxGrps
    | .l3ca _ => p.l3caGetCosNum.map (lowerGrps maxGrps)
    | .l2ca _ => p.l2caGetCosNum.map (lowerGrps maxGrps)
    | .mba _ => p.mbaGetCosNum.map (lowerGrps maxGrps)

/-- The number of classes that all the resources the OS supports have. -/
def Platform.getGrpsNum : Except Err Nat := p.cap.foldlM (grpsStep p) 0

end Init

/-! ## CPU masks -/

/-- The bytes of a mask, those of the highest CPUs first. -/
structure CpuMask where
  tab : Vector (BitVec 8) 512
deriving DecidableEq

namespace CpuMask

def empty : CpuMask := ⟨Vector.replicate 512 0⟩

/-- The byte a CPU's bit is in, an unsigned difference. -/
def item (lcore : Nat) : Nat := (511 + 2 ^ 32 - lcore / 8) % 2 ^ 32

def orByte (mask : CpuMask) (idx : Nat) (b : BitVec 8) : CpuMask :=
  ⟨mask.tab.setIfInBounds idx (mask.tab[idx]?.getD 0 ||| b)⟩

def set (mask : CpuMask) (lcore : Nat) : CpuMask :=
  mask.orByte (item lcore) (1#8 <<< (lcore % 8))

def get (mask : CpuMask) (lcore : Nat) : Bool :=
  (mask.tab[item lcore]?.getD 0).getLsbD (lcore % 8)

def any (mask : CpuMask) : Bool := mask.tab.toList.any fun b => 0 < b

/-- Two digits a byte, and a comma after every fourth byte. -/
def text (mask : CpuMask) : List Char :=
  mask.tab.toList.zipIdx.flatMap fun (b, i) =>
    [Nat.digitChar (b.toNat / 16), Nat.digitChar (b.toNat % 16)]
      ++ if (i + 1) % 4 = 0 then [','] else []

def hexNum (c : Char) : Option Nat :=
  if '0' ≤ c ∧ c ≤ '9' then some (c.toNat - 48)
  else if 'a' ≤ c ∧ c ≤ 'f' then some (c.toNat - 87)
  else if 'A' ≤ c ∧ c ≤ 'F' then some (c.toNat - 55)
  else none

/-- Where the next digit goes: the low half of the byte `idx`, or with `high` its high half. -/
structure Cursor where
  mask : CpuMask
  high : Bool
  idx : Nat

/-- Characters that are no digits are skipped. -/
def Cursor.digit (c : Char) (cur : Cursor) : Cursor :=
  match hexNum c with
  | none => cur
  | some n =>
    if cur.high then ⟨cur.mask.orByte cur.idx (BitVec.ofNat 8 n <<< 4), false, cur.idx - 1⟩
    else ⟨⟨cur.mask.tab.setIfInBounds cur.idx (BitVec.ofNat 8 n)⟩, true, cur.idx⟩

/-- The mask a text spells, read from its end. The buffer takes 512 characters, and the last of
them is overwritten. -/
def ofText (text : List Char) : CpuMask :=
  ((text.take 511).foldr Cursor.digit ⟨empty, false, 511⟩).mask

/-- The cursor with its index as the `int` it is in the source. -/
structure Scan where
  mask : CpuMask
  high : Bool
  idx : Int

/-- `Cursor.digit`, without a result when the table has no byte `idx`. -/
def Scan.digit (c : Char) (scan : Scan) : Option Scan :=
  match hexNum c with
  | none => some scan
  | some n =>
    if scan.idx < 0 ∨ 511 < scan.idx then none
    else if scan.high then
      some ⟨scan.mask.orByte scan.idx.toNat (BitVec.ofNat 8 n <<< 4), false, scan.idx - 1⟩
    else some ⟨⟨scan.mask.tab.setIfInBounds scan.idx.toNat (BitVec.ofNat 8 n)⟩, true, scan.idx⟩

/-- The whole scan of what is in the buffer. -/
def scan (cpus : List Char) : Option Scan :=
  cpus.foldr (fun c s => s.bind (Scan.digit c)) (some ⟨empty, false, 511⟩)

end CpuMask

/-! ## Accesses -/

section Files

variable {κ : Type} (fs : Resctrl κ)

/-- Whatever goes wrong with a file, the library reports `PQOS_RETVAL_ERROR`. -/
def readFile (classId : Nat) (file : RctlFile) : EStateM Err κ (List Char) :=
  mapError (fun _ => .error) (fs.read classId file)

def writeFile (classId : Nat) (file : RctlFile) (text : List Char) : EStateM Err κ Unit :=
  mapError (fun _ => .error) (fs.write classId file text)

def cpumaskRead (classId : Nat) : EStateM Err κ CpuMask :=
  CpuMask.ofText <$> readFile fs classId .cpus

def cpumaskWrite (classId : Nat) (mask : CpuMask) : EStateM Err κ Unit :=
  writeFile fs classId .cpus mask.text

def schemataReadFile (classId : Nat) (schemata : Schemata) : EStateM Err κ Schemata := do
  let text ← readFile fs classId .schemata
  ofExcept (schemataRead text schemata)

def schemataWriteFile (classId : Nat) (schemata : Schemata) : EStateM Err κ Unit :=
  writeFile fs classId .schemata (schemataWrite schemata)

def taskWrite (classId task : Nat) : EStateM Err κ Unit := do
  let k ← get
  failIf (fs.taskExists k task = false) .param
  writeFile fs classId .tasks (Nat.toDigits 10 task ++ ['\n'])

/-- Whether the class has any task. -/
def taskFileCheck (classId : Nat) : EStateM Err κ Bool := do
  let text ← readFile fs classId .tasks
  return text ≠ []

end Files

end Pqos
