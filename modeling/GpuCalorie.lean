import GpuCalorie.AddressDecode.Aliasing
import GpuCalorie.AddressDecode.Masks
import GpuCalorie.AddressDecode.PartitionAddress
import GpuCalorie.AddressDecode.PowerOfTwo
import GpuCalorie.AddressDecode.Translation
import GpuCalorie.Atomics.Callback
import GpuCalorie.Atomics.Sequence
import GpuCalorie.Barrier.Agreement
import GpuCalorie.Barrier.BarrierSet
import GpuCalorie.Cache.Aggregation
import GpuCalorie.Cache.Atomicity
import GpuCalorie.Cache.Baseline
import GpuCalorie.Cache.Block
import GpuCalorie.Cache.Conservation
import GpuCalorie.Cache.DataCache
import GpuCalorie.Cache.DataPort
import GpuCalorie.Cache.Effect
import GpuCalorie.Cache.FillIntegrity
import GpuCalorie.Cache.Flush
import GpuCalorie.Cache.FlushL2
import GpuCalorie.Cache.Freshness
import GpuCalorie.Cache.IpolyHash
import GpuCalorie.Cache.Machine
import GpuCalorie.Cache.MissRate
import GpuCalorie.Cache.Policies
import GpuCalorie.Cache.Registers
import GpuCalorie.Cache.Replacement
import GpuCalorie.Cache.Reservation
import GpuCalorie.Cache.Sent
import GpuCalorie.Cache.TagArray
import GpuCalorie.Cache.UniqueTags
import GpuCalorie.Cache.Victims
import GpuCalorie.Clock.Domains
import GpuCalorie.Clock.Dtm
import GpuCalorie.Coalescer.AtomicAccesses
import GpuCalorie.Coalescer.BankConflicts
import GpuCalorie.Coalescer.CacheBlocks
import GpuCalorie.Coalescer.Coverage
import GpuCalorie.Coalescer.Generate
import GpuCalorie.Coalescer.WarpAccess
import GpuCalorie.Coalescer.Whole
import GpuCalorie.CtaDispatch.Accounting
import GpuCalorie.CtaDispatch.BeginCta
import GpuCalorie.CtaDispatch.Completion
import GpuCalorie.CtaDispatch.Core
import GpuCalorie.CtaDispatch.Dispatch
import GpuCalorie.CtaDispatch.Enumeration
import GpuCalorie.CtaDispatch.ExitThread
import GpuCalorie.CtaDispatch.Gpu
import GpuCalorie.CtaDispatch.Kernel
import GpuCalorie.CtaDispatch.Occupancy
import GpuCalorie.CtaDispatch.Slots
import GpuCalorie.CtaDispatch.SmResources
import GpuCalorie.DeviceMemory.Allocation
import GpuCalorie.DeviceMemory.Checkpoint
import GpuCalorie.DeviceMemory.CheckpointRestore
import GpuCalorie.DeviceMemory.Disjoint
import GpuCalorie.DeviceMemory.Flat
import GpuCalorie.DeviceMemory.Generic
import GpuCalorie.DeviceMemory.GenericWindows
import GpuCalorie.DeviceMemory.LocalTranslation
import GpuCalorie.DeviceMemory.Paged
import GpuCalorie.Dram.Channel
import GpuCalorie.Dram.Conservation
import GpuCalorie.Dram.FifoPipeline
import GpuCalorie.Dram.Frfcfs
import GpuCalorie.Dram.FrfcfsOrder
import GpuCalorie.Dram.FrfcfsProgress
import GpuCalorie.Dram.FrfcfsQueue
import GpuCalorie.Dram.PipelineCounters
import GpuCalorie.Dram.PipelineRuns
import GpuCalorie.Dram.Timing
import GpuCalorie.FunctionalSim.CallFrames
import GpuCalorie.FunctionalSim.Execute
import GpuCalorie.FunctionalSim.RegisterCheckpoint
import GpuCalorie.FunctionalSim.RegisterFile
import GpuCalorie.Instructions.BitField
import GpuCalorie.Instructions.BitFieldExtract
import GpuCalorie.Instructions.BitFieldInsert
import GpuCalorie.Instructions.Carry
import GpuCalorie.Instructions.Compare
import GpuCalorie.Instructions.Convert
import GpuCalorie.Instructions.Division
import GpuCalorie.Instructions.MostSignificantBit
import GpuCalorie.Instructions.MultiplyAdd
import GpuCalorie.Instructions.Permute
import GpuCalorie.Instructions.Register
import GpuCalorie.Instructions.Shuffle
import GpuCalorie.Instructions.ShuffleExact
import GpuCalorie.Instructions.Vote
import GpuCalorie.Instructions.VoteExact
import GpuCalorie.Instructions.WarpLoop
import GpuCalorie.Instructions.Width
import GpuCalorie.Interconnect.Delivery
import GpuCalorie.Interconnect.Local
import GpuCalorie.Interconnect.Matching
import GpuCalorie.Interconnect.Router
import GpuCalorie.Issue.BackEnd
import GpuCalorie.Issue.Discipline
import GpuCalorie.Issue.InFlight
import GpuCalorie.Issue.Instruction
import GpuCalorie.Issue.LoadRelease
import GpuCalorie.Issue.LongOps
import GpuCalorie.Issue.Machine
import GpuCalorie.Issue.OperandArbiter
import GpuCalorie.Issue.SchedulerUnit
import GpuCalorie.Issue.TwoLevelScheduler
import GpuCalorie.Issue.WarpOrdering
import GpuCalorie.LoadStore.Requests
import GpuCalorie.LoadStore.Responses
import GpuCalorie.LoadStore.Routing
import GpuCalorie.LoadStore.Unit
import GpuCalorie.Math.BankRounds
import GpuCalorie.Math.BitSelection
import GpuCalorie.Math.Bytes
import GpuCalorie.Math.DelayLine
import GpuCalorie.Math.Dominance
import GpuCalorie.Math.DominatorSets
import GpuCalorie.Math.Layout
import GpuCalorie.Math.Logarithm
import GpuCalorie.Math.Mutex
import GpuCalorie.Math.NamedBarriers
import GpuCalorie.Math.Postdominance
import GpuCalorie.Math.Reservations
import GpuCalorie.Math.SearchTree
import GpuCalorie.Math.StrictWeakSort
import GpuCalorie.Math.Text
import GpuCalorie.Math.Timers
import GpuCalorie.MemoryPartition.Arbitration
import GpuCalorie.MemoryPartition.Credits
import GpuCalorie.MemoryPartition.Unit
import GpuCalorie.Pipeline.Execute
import GpuCalorie.Pipeline.ResultBus
import GpuCalorie.Pipeline.Stages
import GpuCalorie.Power.Layout
import GpuCalorie.Power.Sampling
import GpuCalorie.Ptx.Assembly
import GpuCalorie.Ptx.BlockCreation
import GpuCalorie.Ptx.BlockEdges
import GpuCalorie.Ptx.BreakChase
import GpuCalorie.Ptx.BreakSettling
import GpuCalorie.Ptx.BreakStack
import GpuCalorie.Ptx.BreakTargets
import GpuCalorie.Ptx.ControlFlow
import GpuCalorie.Ptx.FlowGraph
import GpuCalorie.Ptx.ImmediatePostdominators
import GpuCalorie.Ptx.ParamAgreement
import GpuCalorie.Ptx.ParamLayout
import GpuCalorie.Ptx.ParamRuns
import GpuCalorie.Ptx.ProgramLayout
import GpuCalorie.Ptx.SymbolAllocation
import GpuCalorie.Simt.Checkpoint
import GpuCalorie.Simt.Divergence
import GpuCalorie.Simt.Frames
import GpuCalorie.Simt.Regular
import GpuCalorie.Simt.ReturnReconvergence
import GpuCalorie.Simt.Soundness
import GpuCalorie.Simt.StackFile
import GpuCalorie.Simt.Step
import GpuCalorie.Simt.Tracks
import GpuCalorie.Simt.Update
import GpuCalorie.Simt.Warp
import GpuCalorie.Statistics.InstructionStats
import GpuCalorie.Statistics.LatencyBins
import GpuCalorie.Streams.CtaStreamMap
import GpuCalorie.Streams.CtaStreams
import GpuCalorie.Streams.CtasApart
import GpuCalorie.Streams.Family
import GpuCalorie.Streams.Issue
import GpuCalorie.Streams.LockDiscipline
import GpuCalorie.Streams.Manager
import GpuCalorie.Streams.Queues
import GpuCalorie.Streams.Retirement
import GpuCalorie.Streams.Run
import GpuCalorie.Streams.Threads
import GpuCalorie.Streams.Unwind
import GpuCalorie.SubPartition.SectorRequests
import GpuCalorie.Thermal.HotSpot
