import Pqos.Lib.Prog
import Pqos.Lib.Table
import Pqos.Types
import Pqos.Utils
import Pqos.Machine
import Pqos.Allocation
import Pqos.Api
import Pqos.Proofs.Assoc
import Pqos.Proofs.Assign
import Pqos.Proofs.Tables
import Pqos.Proofs.Banks
import Pqos.Proofs.Reject
import Pqos.Proofs.RoundTrip
import Pqos.Proofs.Reset
import Pqos.Monitoring
import Pqos.Lib.Lease
import Pqos.Proofs.Rmid
import Pqos.Lib.CText
import Pqos.Resctrl
import Pqos.Proofs.Schemata
import Pqos.OsAllocation
import Pqos.Proofs.SchemataFiles
import Pqos.Proofs.MbaBackends
import Pqos.Rdtset
import Pqos.Proofs.Contract
import Pqos.Proofs.Rollback
import Pqos.PidCount
import Pqos.Plan
import Pqos.Proofs.Configure
import Pqos.Cpuinfo
import Pqos.Proofs.CpusFiles
import Pqos.Proofs.Listing
import Pqos.Proofs.SchemataFrame
import Pqos.Poll
import Pqos.Lib.Counter
import Pqos.Proofs.Poll
import Pqos.Proofs.Split
import Pqos.Proofs.StartFailed
import Pqos.Lib.Ledger
import Pqos.OsMonitoring
import Pqos.Proofs.OsMonitoring
import Pqos.Proofs.OsPoll
import Pqos.Isolation
import Pqos.Lib.Latch
import Pqos.Proofs.IpcQuotient
import Pqos.Proofs.Isolation
import Pqos.Lib.Search
import Pqos.Quota
import Pqos.Proofs.Quota
import Pqos.Discovery
import Pqos.OsReset
import Pqos.Proofs.MbaArith
import Pqos.Proofs.MonRead
import Pqos.Proofs.OsFreeClass
import Pqos.Lib.Refine
import Pqos.OsTasks
import Pqos.AllocStore
import Pqos.Proofs.Store
import Pqos.Proofs.MsrStore
import Pqos.Proofs.OsStore
import Pqos.Proofs.OsKernel
import Pqos.Proofs.StoreRuns
import Pqos.Dlock
import Pqos.Proofs.Dlock
import Pqos.RdtRun
import Pqos.Proofs.RdtRun
import Pqos.Proofs.Sharing
import Pqos.Proofs.CdpRuns
import Pqos.Proofs.ClassTable
import Pqos.Init
import Pqos.Proofs.Init
import Pqos.MonApi
import Pqos.Proofs.MonLifecycle
import Pqos.Proofs.HwMonGroups
import Pqos.Proofs.MonGroups
import Pqos.Probe
import Pqos.Proofs.Probe
import Pqos.Proofs.MinWidth
import Pqos.Lib.Numbers
import Pqos.RdtMask
import Pqos.Lib.BitRun
import Pqos.Proofs.RdtMask
import Pqos.CpuList
import Pqos.Proofs.CpuList
import Pqos.Lib.Distinct
import Pqos.NumberList
import Pqos.Proofs.NumberList
import Pqos.Selection
import Pqos.Split
import Pqos.Proofs.CoreGroups
import Pqos.Lib.Cells
import Pqos.Proofs.CoreSelection
import Pqos.Proofs.PidCount
import Pqos.Proofs.PidSelection
import Pqos.AllocSelect
import Pqos.Proofs.AllocSelect
import Pqos.AssocSelect
import Pqos.Proofs.AssocSelect
import Pqos.Proofs.AllocOpts
import Pqos.AllocApply
import Pqos.Proofs.AllocApply
import Pqos.Proofs.ClassText
import Pqos.Submit
import Pqos.Proofs.Submit
import Pqos.Proofs.Validate
import Pqos.Lib.Qsort
import Pqos.Top
import Pqos.Proofs.TopProcs
import Pqos.Proofs.Rows
import Pqos.Proofs.ProcStat
import Pqos.Proofs.Contiguity
import Pqos.Proofs.TopologyIds
import Pqos.Apic
import Pqos.Proofs.CacheIds
import Pqos.Proofs.RmidWidth
