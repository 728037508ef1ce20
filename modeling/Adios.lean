import Adios.Wire.Endian
import Adios.Wire.Field
import Adios.Wire.Memory
import Adios.Wire.Delimits
import Adios.Wire.Parser
import Adios.Types
import Adios.Endianness
import Adios.Index.Struct
import Adios.Index.Write
import Adios.Index.WriteGrows
import Adios.Index.WriteSizes
import Adios.Index.Format
import Adios.Index.Parse
import Adios.Index.ParseSpec
import Adios.Index.ParseOutput
import Adios.Index.WriteSpec
import Adios.Index.RoundTrip
import Adios.Index.CrossEndian
import Adios.Index.Groups
import Adios.Index.Footer
import Adios.Read.BpVars
import Adios.Read.Decoders
import Adios.Heap.LinkedList
import Adios.Lists.InsertWith
import Adios.Lists.RankedSlices
import Adios.Lists.Marks
import Adios.Index.Merge
import Adios.Index.MergeSpec
import Adios.Index.MergeRuns
import Adios.Pg.Struct
import Adios.Pg.Overhead
import Adios.Pg.TransformCharacteristic
import Adios.Pg.Write
import Adios.Pg.WriteSpec
import Adios.Pg.VarOverhead
import Adios.Pg.Lengths
import Adios.Pg.WriteVar
import Adios.Pg.VarLayout
import Adios.Pg.WriteRun
import Adios.Pg.VarsIndex
import Adios.Pg.FailedWrites
import Adios.Pg.GroupSize
import Adios.Pg.GroupBudget
import Adios.Read.Steps
import Adios.Read.GroupView
import Adios.Read.VarIds
import Adios.Read.NameLookup
import Adios.Read.GroupViews
import Adios.Grid.RowMajor
import Adios.Grid.StorageOrder
import Adios.Grid.Boxes
import Adios.Query.Bitmap
import Adios.Query.SetBits
import Adios.Query.Batches
import Adios.Query.RidConversion
import Adios.Query.Tree
import Adios.Query.Leaves
import Adios.Query.Accepted
import Adios.Query.BlockNumbers
import Adios.Query.PgBounds
import Adios.Query.HeldTree
import Adios.Query.HeldRuns
import Adios.Runs.Every
import Adios.Flexpath.Writer
import Adios.Flexpath.StepAccounting
import Adios.Read.Streaming
import Adios.Heap.Objects
import Adios.Read.Infocache
import Adios.Read.InfocacheSpec
import Adios.Read.InfocacheRuns
import Adios.Heap.Writes
import Adios.Flexpath.Reader
import Adios.Flexpath.BoundingBox
import Adios.Query.FastBit
import Adios.Query.FastBitPositions
import Adios.Query.FastBitInput
import Adios.Query.FastBitLanding
import Adios.Query.FastBitExact
import Adios.Runs.Descent
import Adios.Runs.Network
import Adios.Heap.Laid
import Adios.Amr.Brigade
import Adios.Amr.BrigadeRun
import Adios.Amr.BrigadeGather
import Adios.Utils.Bpmeta
import Adios.Utils.Bpappend
import Adios.Utils.BpmetaComplete
import Adios.Lists.Bubble
import Adios.Lists.Results
import Adios.Lists.Shares
import Adios.Index.Exchange
import Adios.Index.Keeps
import Adios.Index.Sort
import Adios.Amr.GatherIndex
import Adios.Amr.SentIndexes
import Adios.Amr.Relocation
import Adios.Mpi.FileOffset
import Adios.Amr.Append
import Adios.Amr.AppendKept
import Adios.Core.Subvolume
import Adios.Core.Intersection
import Adios.Core.WriteBlocks
import Adios.Core.Selections
import Adios.Core.Sieving
import Adios.Core.CopySubvolume
import Adios.Core.CopiedSubvolume
import Adios.Core.PatchData
import Adios.DataSpaces.Stepping
import Adios.DataSpaces.StepsReached
import Adios.Read.StagedComplete
import Adios.Icee.Steps
import Adios.Icee.StepsComplete
import Adios.Wire.Signed
import Adios.DataSpaces.GroupInfo
import Adios.DataSpaces.GroupInfoImage
import Adios.DataSpaces.GroupInfoKept
import Adios.Lists.Completion
import Adios.Read.RequestGroups
import Adios.Read.RequestGroupCalls
import Adios.Read.RequestGroupsComplete
import Adios.Index.SortLinked
import Adios.Read.BlockIndex
import Adios.Read.MiniFooter
import Adios.Lists.KeyRuns
import Adios.Read.PgTable
import Adios.Read.OldTimes
import Adios.Lists.Bins
import Adios.Pg.Statistics
import Adios.Pg.Histogram
import Adios.Pg.ParseHeader
import Adios.Pg.HeaderRoundTrip
import Adios.Lists.Expand
import Adios.Read.VarSteps
import Adios.Lists.Removed
import Adios.Read.Dimensions
import Adios.Transforms.RawReads
import Adios.Transforms.WriteBlockRead
import Adios.Transforms.WriteBlockDelivered
import Adios.Transforms.GlobalRead
import Adios.Heap.Slots
import Adios.Transforms.PointsDelivered
import Adios.Transforms.BoxPatch
import Adios.Transforms.BoxDelivered
import Adios.Core.PayloadSwap
import Adios.Grid.Cuts
import Adios.Read.Subfiles
import Adios.Read.SplitRequest
import Adios.Read.SplitCovers
import Adios.Transforms.AplodComponents
import Adios.Lists.Separated
import Adios.Core.Strings
import Adios.Transforms.SpecParse
import Adios.Transforms.SpecParsed
import Adios.Core.NameValuePairs
import Adios.Core.BufferPool
import Adios.Numbers.Double
import Adios.Transforms.GroupGrowth
import Adios.Read.SeekStep
import Adios.Wire.Cells
import Adios.Read.BoxRead
import Adios.Read.PointBlocks
import Adios.Read.PointReads
import Adios.Read.IntersectingPgs
import Adios.Read.WriteBlock
import Adios.Read.WriteBlockRegions
import Adios.Read.WriteBlockSteps
import Adios.Lists.Places
import Adios.Read.AttrIds
import Adios.Read.AttrIdsExact
import Adios.Read.BlockInfo
import Adios.Read.BlockInfoRounds
import Adios.Read.BlockInfoSets
import Adios.Query.Positions
import Adios.Amr.Partition
import Adios.Query.CombinedHandles
import Adios.Core.ScalarString
import Adios.Core.CopySpec
import Adios.Core.CopySpecBoxes
import Adios.Core.CopySpecAlgebra
import Adios.Core.Compaction
import Adios.Lists.StableInsert
import Adios.Read.StagedChunks
import Adios.Read.StagedChunksContain
import Adios.Read.Version1
import Adios.Core.DimensionStrings
import Adios.Grid.Odometer
import Adios.Read.CopyData
import Adios.DataSpaces.RequestQueue
import Adios.Core.Strtod
import Adios.Core.MeshTimes
import Adios.Core.UniformMesh
import Adios.Utils.Bpls
import Adios.Read.OpenWritten
