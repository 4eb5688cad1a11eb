import Drace.Machine
import Drace.Causality
import Drace.VectorClock
import Drace.StackTrace
import Drace.VarState
import Drace.Fasttrack
import Drace.Clocks
import Drace.Run
import Drace.Access
import Drace.Depots
import Drace.ClockStep
import Drace.WellFormed
import Drace.Allocation
import Drace.HappensBefore
import Drace.Thresholds
import Drace.History
import Drace.Precision
import Drace.Completeness
import Drace.ReadCheck
import Drace.Annotations
import Drace.Finished
import Drace.Reports
import Drace.Independence
import Drace.ReadOrder
import Drace.Commute
import Drace.ShadowState
import Drace.MemoryTracker
import Drace.FunctionWrapper
import Drace.Client
import Drace.Recording
import Drace.Gate
import Drace.Analysis
import Drace.Bounds
import Drace.Delivery
import Drace.Scopes
import Drace.Outgoing
import Drace.Overrun
import Drace.ExternalControl
import Drace.MutexBook
import Drace.CallStack
import Drace.Bytes
import Drace.TraceBinary
import Drace.DetectorOutput
import Drace.Replay
import Drace.RaceFilter
import Drace.RaceCollector
import Drace.OrderedIndex
import Drace.ModuleTracker
import Drace.ModuleLookup
import Drace.ResolverLink
import Drace.ResolverPairing
import Drace.Ringbuffer
import Drace.RingbufferFifo
import Drace.Simulation
import Drace.StackDepot
import Drace.Epochs
import Drace.CompleteStacks
import Drace.ThreadTable
import Drace.LockDiscipline
import Drace.Shortcuts
import Drace.Characterisation
import Drace.CallPath
import Drace.Attribution
import Drace.Sampling
import Drace.AddressSuppression
import Drace.Collection
import Drace.Duplicates
import Drace.Regex
import Drace.EcmaScript
import Drace.Patterns
import Drace.Suppressions
import Drace.Operators
import Drace.ModuleCache
import Drace.Symbols
import Drace.TraceDecoder
import Drace.SymbolSearch
import Drace.RingbufferPaths
import Drace.Sweeps
import Drace.LossyCounting
import Drace.SourceSnippets
import Drace.LastReads
import Drace.StackTree
import Drace.Merging
import Drace.Forward
import Drace.Slicing
import Drace.Thinning
import Drace.FirstRace
import Drace.Guarded
import Drace.Contract
import Drace.Serving
import Drace.Secured
import Drace.Linearization
import Drace.Spinlock
import Drace.SharedQueue
import Drace.Translation
import Drace.Tsan
import Drace.TsanOrder
import Drace.Offline
