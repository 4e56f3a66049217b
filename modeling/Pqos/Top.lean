import Pqos.Poll
import Pqos.Lib.CText
import Pqos.Lib.Qsort

/-!
# What pqos shows first

With `-T` pqos looks for the processes that used the CPU most since it looked last, and shows the
groups with the most cache first. Both are sorted by the C library's `qsort`, with comparisons that
return a difference as an `int`. On a terminal pqos shows as many groups as it has lines.
-/

namespace Pqos

open CText Qsort

/-! ## CPU time -/

def pidColStatus : Nat := 3
def pidColUtime : Nat := 14
def pidColStime : Nat := 15

def procStatWhitelist : List Char := "RSD".toList

def isStrConversionOk (strRemainder : List Char) : Bool := strRemainder = []

/-- What a column adds to the ticks: nothing unless all of it is a number. -/
def columnTicks (token : List Char) : Word :=
  let (sutime, rest) := strtoull 10 token
  if isStrConversionOk rest then BitVec.ofNat 64 sutime else 0

/-- The loop over the columns, until the last one of interest. -/
def cputicksFrom : Nat → Word → List (List Char) → Option Word
  | _, cputicks, [] => some cputicks
  | colIdx, cputicks, token :: tokens =>
    if pidColStime < colIdx then some cputicks
    else if colIdx = pidColStatus ∧ strpbrk token procStatWhitelist = [] then none
    else cputicksFrom (colIdx + 1)
      (if colIdx = pidColUtime ∨ colIdx = pidColStime then cputicks + columnTicks token
        else cputicks) tokens

/-- The ticks of a process, given its `stat` file if that can be opened. The buffer has room for 511
characters. -/
def getPidCputicks (procPidStats : Option (List Char)) : Option Word := do
  let buf := (← procPidStats).take 511
  if buf = [] then none else cputicksFrom 1 0 (strtok ' ' (cstr buf))

/-- A number of 64 bits as an `int`. -/
def toInt32 (val : Word) : Int := (val.setWidth 32).toInt

/-! ## Top processes -/

/-- The statistics of a process. The type of the ratios is the one that a `double` stands for. -/
structure ProcStats (ρ : Type) where
  pid : Int
  ticksDelta : Word
  cpuAvgRatio : ρ
  valid : Bool
deriving DecidableEq, Repr

section Procs

variable {ρ : Type} [LinearOrder ρ]

def procStatsCmp (pa pb : ProcStats ρ) : Int :=
  if pa.ticksDelta = pb.ticksDelta then
    if pa.cpuAvgRatio < pb.cpuAvgRatio then -1
    else if pb.cpuAvgRatio < pa.cpuAvgRatio then 1
    else 0
  else toInt32 (pa.ticksDelta - pb.ticksDelta)

/-- One entry of the list. Once the array is full an entry has to be above its first one. -/
def fillTopProc (q : Sorter (@procStatsCmp ρ _)) (maxSize : Nat) (topProcs : List (ProcStats ρ))
    (ps : ProcStats ρ) : List (ProcStats ρ) :=
  if ps.valid = false then topProcs
  else if topProcs.length < maxSize then q.sort (topProcs ++ [ps])
  else
    match topProcs with
    | [] => []
    | top :: rest => if procStatsCmp ps top ≤ 0 then top :: rest else q.sort (ps :: rest)

/-- The entries of the array that are used. What the function returns is their number. -/
def fillTopProcs (q : Sorter (@procStatsCmp ρ _)) (pslist : List (ProcStats ρ)) (maxSize : Nat) :
    List (ProcStats ρ) :=
  pslist.foldl (fillTopProc q maxSize) []

end Procs

/-! ## Rows -/

/-- What the loop shows of a group. -/
structure MonGroup where
  cores : List Nat
  values : EventValues
deriving DecidableEq

def monQsortLlcCmpDesc (a b : MonGroup) : Int := toInt32 (b.values.llc - a.values.llc)

def monQsortCoreidCmpAsc (a b : MonGroup) : Int :=
  (BitVec.ofNat 32 (a.cores.headD 0) - BitVec.ofNat 32 (b.cores.headD 0)).toInt

/-- The groups in the order in which they are shown. -/
def monData (qLlc : Sorter monQsortLlcCmpDesc) (qCore : Sorter monQsortCoreidCmpAsc)
    (selMonTopLike processMode : Bool) (monGrps : List MonGroup) : List MonGroup :=
  if selMonTopLike then qLlc.sort monGrps
  else if processMode then monGrps
  else qCore.sort monGrps

def termMinNumLines : BitVec 32 := 3

/-- The lines of the terminal, of which it has a few at least; none where the query fails. -/
def maxLines (wsRow : Option (BitVec 16)) : BitVec 32 :=
  match wsRow with
  | some row =>
    if row.setWidth 32 < termMinNumLines then termMinNumLines else row.setWidth 32
  | none => 0

/-- The number of rows of a poll. -/
def displayNum (istty : Bool) (wsRow : Option (BitVec 16)) (monNumber : BitVec 32) : BitVec 32 :=
  if istty ∧ maxLines wsRow < monNumber + termMinNumLines - 1 then
    maxLines wsRow - termMinNumLines + 1
  else monNumber

/-- The rows of a poll. There are none where the loop passes the end of the array. -/
def rows (displayNum : Nat) (monData : List MonGroup) : Option (List MonGroup) :=
  (List.range displayNum).mapM (monData[·]?)

end Pqos
