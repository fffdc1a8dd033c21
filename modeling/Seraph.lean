import Seraph.AtlasBlocks
import Seraph.AtlasCommits
import Seraph.AtlasFree
import Seraph.AtlasRestore
import Seraph.AtlasRevocation
import Seraph.AtlasRollback
import Seraph.BootReservation
import Seraph.CapabilityLifetime
import Seraph.CapabilitySealing
import Seraph.SparseClockSaturation
import Seraph.SparseClockWire
import Seraph.VectorClockCausality
import Seraph.WhisperAwait
import Seraph.WhisperCapacity
import Seraph.KernelHeapVerify
import Seraph.AetherRate
import Seraph.AetherNicReplay
import Seraph.SchedulerInheritance
import Seraph.SchedulerRuns
import Seraph.ConstantFoldingPass
import Seraph.CelestialVerify
import Seraph.DeadCodeRuns
import Seraph.ProofCoverage
import Seraph.EffectInference
import Seraph.LexerRuns
import Seraph.ParserModule
import Seraph.X64Fixups
import Seraph.X64Calls
import Seraph.X64Arithmetic
import Seraph.SbfValidation
import Seraph.StrandDeadlock
import Seraph.StrandLending
import Seraph.StrandMutexes
import Seraph.ProofBlobGeneration
import Seraph.WhisperTracing
import Seraph.ElfLoading
import Seraph.NvmeProtocol
import Seraph.SurfaceInvariant
import Seraph.AlignedPages
import Seraph.AtlasRepair
import Seraph.KernelHeapUndo
import Seraph.LexerLiterals
import Seraph.SnapshotList
import Seraph.SnapshotOrder
import Seraph.TypeJoin
import Seraph.VectorClockMerge
import Seraph.SoaArrayRuns
import Seraph.KernelRuntime
import Seraph.Arm64Constants
import Seraph.BranchEncodings
import Seraph.EntropicExactness
import Seraph.NvmeTransfer
import Seraph.Q128Rounding
import Seraph.Q128Text
import Seraph.TypeLayout
import Seraph.SdfShapes
import Seraph.AetherGenerations
