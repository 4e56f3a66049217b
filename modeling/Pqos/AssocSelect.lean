import Pqos.Selection

/-!
# Associations set by pqos

The option `-a` gives classes to cores and to processes. They are in two tables of a fixed size. The
first list that is not empty is stored as it is; an id of a later one is looked for, and gets the
new class where it is found and an entry of its own where it is not.
-/

namespace Pqos

open CText

/-- An entry of a table: a core or a process, and its class. -/
structure SelAssoc (ι : Type) where
  id : ι
  classId : Nat
deriving DecidableEq, Repr

def selAssocPidMax : Nat := 128

section Fill

variable {ι : Type} [DecidableEq ι]

/-- The next entry of the table, if it has one. -/
def putAssoc (max : Nat) (tab : List (SelAssoc ι)) (a : SelAssoc ι) :
    Except Halt (List (SelAssoc ι)) :=
  if max ≤ tab.length then .error .exit else .ok (tab ++ [a])

/-- The table with the class in the first entry of the id, if there is one. -/
def updateAssoc (a : SelAssoc ι) : List (SelAssoc ι) → Option (List (SelAssoc ι))
  | [] => none
  | b :: tab =>
    if b.id = a.id then some ({ b with classId := a.classId } :: tab)
    else (updateAssoc a tab).map (b :: ·)

def selectAssoc (max : Nat) (tab : List (SelAssoc ι)) (a : SelAssoc ι) :
    Except Halt (List (SelAssoc ι)) :=
  match updateAssoc a tab with
  | some tab => .ok tab
  | none => putAssoc max tab a

/-- The entries of ids that get one class. -/
def withClass (cos : Nat) (ids : List ι) : List (SelAssoc ι) :=
  ids.map fun id => { id := id, classId := cos }

/-- The first ids are stored one after another, later ones are looked for. -/
def storeAssocs (max : Nat) (tab entries : List (SelAssoc ι)) : Except Halt (List (SelAssoc ι)) :=
  if entries = [] then .ok tab
  else if tab = [] then entries.foldlM (putAssoc max) []
  else entries.foldlM (selectAssoc max) tab

/-- A class and a list, with the table that the list is stored in. An id is kept as `cast` has it
and a class in 32 bits. -/
def fillTab (max : Nat) (cast : Nat → ι) (tab : List (SelAssoc ι)) (str : List Char) :
    Except Halt (List (SelAssoc ι)) :=
  match strchr '=' str with
  | none => .error .exit
  | some (cls, list) => do
    let cos ← Main.strtouint64 cls
    let ids ← Main.strlisttotab list max
    storeAssocs max tab (withClass (cos % 2 ^ 32) (ids.map cast))

end Fill

def isLlcAssoc (str : List Char) : Bool := strcasecmp (str.take 4) "llc:".toList
def isCoreAssoc (str : List Char) : Bool := strcasecmp (str.take 5) "core:".toList
def isPidAssoc (str : List Char) : Bool := strcasecmp (str.take 4) "pid:".toList

def fillCoreTab (tab : List (SelAssoc Nat)) (str : List Char) :
    Except Halt (List (SelAssoc Nat)) :=
  fillTab pqosMaxCores (· % 2 ^ 32) tab (if isLlcAssoc str then str.drop 4 else str.drop 5)

def fillPidTab (tab : List (SelAssoc Int)) (str : List Char) : Except Halt (List (SelAssoc Int)) :=
  fillTab selAssocPidMax pidT tab (str.drop 4)

/-- The tables with the number of their entries, and which of them was named last. -/
structure SelAssocs where
  selAssocTab : List (SelAssoc Nat)
  selAssocPidTab : List (SelAssoc Int)
  allocPidFlag : Bool
deriving DecidableEq, Repr

def noneAssociated : SelAssocs := { selAssocTab := [], selAssocPidTab := [], allocPidFlag := false }

def parseAllocationAssoc (sel : SelAssocs) (str : List Char) : Except Halt SelAssocs :=
  if isLlcAssoc str ∨ isCoreAssoc str then do
    let tab ← fillCoreTab sel.selAssocTab str
    return { sel with selAssocTab := tab, allocPidFlag := false }
  else if isPidAssoc str then do
    let tab ← fillPidTab sel.selAssocPidTab str
    return { sel with selAssocPidTab := tab, allocPidFlag := true }
  else .error .exit

/-- The option `-a`. -/
def selfnAllocationAssoc (sel : SelAssocs) (arg : List Char) : Except Halt SelAssocs :=
  if arg = [] then .error .exit else (strtok ';' arg).foldlM parseAllocationAssoc sel

end Pqos
