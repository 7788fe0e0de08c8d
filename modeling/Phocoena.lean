import Phocoena.Horizon.BundlePublication
import Phocoena.Horizon.FileReplace
import Phocoena.FS.FstRuns
import Phocoena.Common.DiskCacheRecovery
import Phocoena.Core.ARDecryptFields
import Phocoena.Common.StringUtil
import Phocoena.VideoCommon.PaletteRange
import Phocoena.VideoCommon.TextureInfo
import Phocoena.Lib.Tiles
import Phocoena.Common.SettingsRoundTrip
import Phocoena.Common.SettingsHandler
import Phocoena.Common.NandPaths
import Phocoena.Lib.TextSearch
import Phocoena.DSP.LoopPrograms
import Phocoena.VideoCommon.IndexRuns
import Phocoena.VideoCommon.IndexDraws
import Phocoena.VideoCommon.Figures
import Phocoena.VideoCommon.VertexManager
import Phocoena.DiscIO.PurgeRoundTrip
import Phocoena.DiscIO.PurgeSegments
import Phocoena.Lib.SparseRuns
import Phocoena.DiscIO.PurgeCompression
import Phocoena.DiscIO.ScrubSafety
import Phocoena.DiscIO.DiscScrubber
import Phocoena.DiscIO.WIAEntries
import Phocoena.DiscIO.WIABlob
import Phocoena.DSP.AcceleratorSamples
import Phocoena.DSP.AcceleratorWalk
import Phocoena.DSP.Accelerator
import Phocoena.DiscIO.NFSReads
import Phocoena.DiscIO.NFSBlob
import Phocoena.DSP.AddressRegisters
import Phocoena.Lib.CarryBits
import Phocoena.PPCAnalyst.IdleLoopSteps
import Phocoena.PPCAnalyst.IdleLoopSound
import Phocoena.PPCAnalyst.IdleLoop
import Phocoena.PPCAnalyst.StaticTrace
import Phocoena.Gekko.Dispatch
import Phocoena.Lib.Restart
import Phocoena.Gekko.Effects
import Phocoena.Gekko.Machine
import Phocoena.Common.CallArguments
import Phocoena.Common.ImmediateOperands
import Phocoena.Common.MoveImmediateExact
import Phocoena.Common.MoveImmediate
import Phocoena.Lib.BitParts
import Phocoena.Common.StackInverse
import Phocoena.DiscIO.GetSeedExact
import Phocoena.DiscIO.SeedRecovery
import Phocoena.Common.LogicalImm
import Phocoena.Common.RangeSizeSetRuns
import Phocoena.Horizon.SupportSessions
import Phocoena.Horizon.SupportDiagnostics
import Phocoena.Horizon.JitMemoryRuns
import Phocoena.Horizon.JitMemoryRegions
import Phocoena.Horizon.JitMemory
import Phocoena.VideoCommon.InStep
import Phocoena.DSP.Accumulators
import Phocoena.VideoCommon.TransformUpload
import Phocoena.VideoCommon.XFStructs
import Phocoena.VideoCommon.VertexShaderManager
import Phocoena.VideoCommon.StreamCuts
import Phocoena.Horizon.MemArenaLedger
import Phocoena.Core.CoreTimingRuns
import Phocoena.Core.ActionReplayRuns
import Phocoena.DiscIO.GCZRoundTrip
import Phocoena.DiscIO.CompressorSafety
import Phocoena.DiscIO.RVZPackScan
import Phocoena.GCMemcard.FileRuns
import Phocoena.Gekko.CarryOverflow
import Phocoena.Horizon.ClockOwnership
import Phocoena.Horizon.ZipRoundTrip
import Phocoena.JitArm64.CodeSpaceSafety
import Phocoena.JitArm64.DivisionExact
import Phocoena.JitCommon.ConstantPropagationSound
import Phocoena.PPCAnalyst.Liveness
import Phocoena.VideoCommon.FifoBatch
import Phocoena.VideoCommon.GatherPipeOrder
import Phocoena.Vulkan.CommandBufferRing
import Phocoena.Common.LinearDiskCache
import Phocoena.Common.BlockingLoopRuns
import Phocoena.Common.IniRewriting
import Phocoena.FS.FstSerialization
import Phocoena.FS.HostFileSystem
import Phocoena.PowerPC.PPCCacheRuns
import Phocoena.DSP.LoopTraces
import Phocoena.DiscIO.FileSystemLookup
import Phocoena.JitCommon.JitCacheRuns
