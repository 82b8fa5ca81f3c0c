import SyncPerf.Interleaving
import SyncPerf.OwnedLock
import SyncPerf.RecordEntries
import SyncPerf.LazyInstall
import SyncPerf.PthreadP
import SyncPerf.MutexLock
import SyncPerf.MutexTrylock
import SyncPerf.MutexUnlock
import SyncPerf.FineTime
import SyncPerf.XThread
import SyncPerf.Machine
import SyncPerf.MutexInvariant
import SyncPerf.Records
import SyncPerf.Report
import SyncPerf.Counting
import SyncPerf.Conflicts
import SyncPerf.Contention
import SyncPerf.MutexInit
import SyncPerf.Interpose
import SyncPerf.CondWait
import SyncPerf.FirstUse
import SyncPerf.Tpp
import SyncPerf.MutexCalls
import SyncPerf.LockAgreement
import SyncPerf.PiUnlock
import SyncPerf.NotRecoverable
import SyncPerf.CallSequence
import SyncPerf.StaticKind
import SyncPerf.Levels
import SyncPerf.Lifecycle
import SyncPerf.ProcessShared
import SyncPerf.CondVar
import SyncPerf.RobustSteps
import SyncPerf.RobustLock
import SyncPerf.PrioSteps
import SyncPerf.PrioProtect
import SyncPerf.PrioBalance
import SyncPerf.Alone
import SyncPerf.PrioAlone
import SyncPerf.RobustAlone
import SyncPerf.CallSites
import SyncPerf.MapTotals
import SyncPerf.SyncTrack
import SyncPerf.Sharing
import SyncPerf.Operands
import SyncPerf.Recording
import SyncPerf.Instrumentation
import SyncPerf.CondTime
import SyncPerf.ThreadPhases
import SyncPerf.PrioUsable
import SyncPerf.Accounting
import SyncPerf.CString
import SyncPerf.LineInfo
import SyncPerf.HexText
import SyncPerf.RawContext
import SyncPerf.Backtrace
import SyncPerf.CallStackString
import SyncPerf.RecordedStack
import SyncPerf.GroupMap
import SyncPerf.AsymmetricLock
import SyncPerf.FailedInit
import SyncPerf.ReportStart
import SyncPerf.Simulation
import SyncPerf.Wakeups
import SyncPerf.LowLevelLock
import SyncPerf.AtomicWord
import SyncPerf.LinkedRing
import SyncPerf.RobustList
import SyncPerf.RobustKnows
import SyncPerf.RobustRing
import SyncPerf.RobustReach
import SyncPerf.PrioWakeups
import SyncPerf.Slots
import SyncPerf.Coherence
import SyncPerf.TppInit
import SyncPerf.Spins
import SyncPerf.ReportRun
import SyncPerf.WaitTimes
import SyncPerf.DirectCalls
import SyncPerf.Transparent
import SyncPerf.CountedCalls
