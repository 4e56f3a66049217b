import Pqos.Lib.Search
import Mathlib.Data.Rat.Floor
import Mathlib.Algebra.Order.Archimedean.Basic

/-!
# The cheapest quota

A service's quota of CPU, memory, cache and memory bandwidth is searched for from the largest down:
among those with which a model predicts that the service reaches its target, the cheapest is taken.
Numbers are exact.
-/

namespace Pqos

open Search

structure Quota where
  cpu : ℚ
  mem : ℚ
  llc : ℚ
  membw : ℚ
deriving DecidableEq

/-- The grid that is searched: for each resource, where the search begins, the bound it stays above,
and its step. -/
structure QuotaGrid where
  max : Quota
  min : Quota
  step : Quota

/-- The grid that `init_mysql_const` sets. -/
def mysqlGrid : QuotaGrid :=
  ⟨⟨6, 1024 * 500, 11264, 100⟩, ⟨6 / 10, 10240, 1024, 10⟩, ⟨1 / 10, 1024, 1024, 10⟩⟩

/-- `float('%.2f' % x)`: two decimals, ties to even. -/
def twoDecimals (x : ℚ) : ℚ :=
  let n := ⌊x * 100⌋
  let r := x * 100 - n
  (if r < 1 / 2 ∨ (r = 1 / 2 ∧ n % 2 = 0) then n else n + 1) / 100

def minCostMysql (q : Quota) : ℚ :=
  if 20480 ≤ q.mem then (q.cpu * 3 - 2) + q.mem / 1024 + q.llc / 1024 + q.membw / 10
  else (q.cpu * 3 - 2) + q.mem / (1024 / 10) + q.llc / 1024 + q.membw / 10

section Search

variable {P C : Type} [LinearOrder P] [LinearOrder C] (g : QuotaGrid)
  (predict : Quota → Nat → P) (minCostFunction : Quota → C) (ips : P) (tasks : Nat)

/-- The best quota so far takes the next one's place when that costs less. -/
def offerQuota (q : Quota) : Best C Quota → Best C Quota :=
  Best.offer (minCostFunction q) { q with cpu := twoDecimals q.cpu }

/-- Bandwidth is walked down until the prediction misses the target. -/
def membwLoop (fuel : Nat) (cpu mem llc : ℚ) (b : Best C Quota) : Option (Best C Quota) :=
  forDown g.step.membw g.min.membw
    (fun membw b =>
      if predict ⟨cpu, mem, llc, membw⟩ tasks < ips then some (.stop b)
      else some (.next (offerQuota minCostFunction ⟨cpu, mem, llc, membw⟩ b)))
    fuel g.max.membw b

/-- Cache is walked down until the prediction misses the target at the largest bandwidth. -/
def llcLoop (fuel : Nat) (cpu mem : ℚ) (b : Best C Quota) : Option (Best C Quota) :=
  forDown g.step.llc g.min.llc
    (fun llc b =>
      if predict ⟨cpu, mem, llc, g.max.membw⟩ tasks < ips then some (.stop b)
      else (membwLoop g predict minCostFunction ips tasks fuel cpu mem llc b).map .next)
    fuel g.max.llc b

/-- The two outer loops, around a search over cache and bandwidth. -/
def quotaSearch (inner : ℚ → ℚ → Best C Quota → Option (Best C Quota)) (fuel : Nat) :
    Option Quota :=
  (forDown g.step.cpu g.min.cpu
    (fun cpu b =>
      (forDown g.step.mem g.min.mem (fun mem b => (inner cpu mem b).map .next) fuel g.max.mem b).map
        .next)
    fuel g.max.cpu ⟨minCostFunction g.max, g.max⟩).map Best.best

def getQuotaFromIpc (fuel : Nat) : Option Quota :=
  quotaSearch g minCostFunction (llcLoop g predict minCostFunction ips tasks fuel) fuel

/-! ## The search without a break -/

def membwAll (fuel : Nat) (cpu mem llc : ℚ) (b : Best C Quota) : Option (Best C Quota) :=
  forDown g.step.membw g.min.membw
    (fun membw b =>
      some (.next (if predict ⟨cpu, mem, llc, membw⟩ tasks < ips then b
        else offerQuota minCostFunction ⟨cpu, mem, llc, membw⟩ b)))
    fuel g.max.membw b

def llcAll (fuel : Nat) (cpu mem : ℚ) (b : Best C Quota) : Option (Best C Quota) :=
  forDown g.step.llc g.min.llc
    (fun llc b => (membwAll g predict minCostFunction ips tasks fuel cpu mem llc b).map .next)
    fuel g.max.llc b

def exhaustiveQuota (fuel : Nat) : Option Quota :=
  quotaSearch g minCostFunction (llcAll g predict minCostFunction ips tasks fuel) fuel

end Search

/-- The points of the grid, in the order of the search. -/
def QuotaGrid.points (g : QuotaGrid) (fuel : Nat) : Option (List Quota) := do
  let cpus ← down g.step.cpu g.min.cpu fuel g.max.cpu
  let mems ← down g.step.mem g.min.mem fuel g.max.mem
  let llcs ← down g.step.llc g.min.llc fuel g.max.llc
  let membws ← down g.step.membw g.min.membw fuel g.max.membw
  return cpus.flatMap fun cpu => mems.flatMap fun mem => llcs.flatMap fun llc =>
    membws.map fun membw => ⟨cpu, mem, llc, membw⟩

end Pqos
