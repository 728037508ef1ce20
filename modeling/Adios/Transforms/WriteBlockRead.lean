import Adios.Core.CopiedSubvolume
import Adios.Transforms.RawReads

/-!
# Transforms — reading a write-block

A read of a block of a variable that the identity transform has written, or of a range of its
elements. A block that is given by its number in the step is read in each step that is asked for,
and the process groups complete in any order.
-/

namespace Adios.Transforms

open CopySubvolume Selections Sieving Subvolume WriteBlocks

/-! ## The code -/

section

variable (v : Variable) (sel : WriteBlock)

/-- `generate_read_request_for_pg` for a write-block selection; it may turn out to have nothing of
the process group. -/
def generateReadRequestForPg (timestep : Nat) (blockidx : Int) :
    Except Fault (Option (PgReadRequest × RawReadRequest)) := do
  let pgBoundsSel ← v.varblock blockidx
  match intersectWbWb v.varinfo timestep ⟨blockidx, 1, 0, 0, 0⟩ sel with
  | none => return none
  | some inter =>
    let pg := ⟨timestep, blockidx, v.rawVarLength blockidx, .writeBlock inter, pgBoundsSel⟩
    let subreq ← PgReadRequest.generateSieving pg v.origType
    return some (pg, subreq)

/-- The body of "`for (timestep = from_steps; timestep < from_steps + nsteps; timestep++)`" -/
def generateReadRequestInStep (timestep : Nat) :
    Except Fault (Option (PgReadRequest × RawReadRequest)) :=
  match v.absoluteBlockidx timestep sel.index with
  | some blockidx => generateReadRequestForPg v sel timestep blockidx
  -- "is invalid in timestep"
  | none => .ok none

/-- `populate_read_request_for_local_selection`; the steps are ignored if the index is absolute. -/
def populateReadRequest (fromSteps nsteps : Nat) :
    Except Fault (List (PgReadRequest × RawReadRequest)) :=
  if sel.isAbsoluteIndex ≠ 0 then
    match v.relativeBlockidx sel.index with
    | some (timestep, _) => do
      let pg ← generateReadRequestForPg v sel timestep sel.index
      return pg.toList
    -- "Writeblock selection with invalid absolute index"
    | none => .ok []
  else do
    let pgs ← (List.range nsteps).mapM fun i => generateReadRequestInStep v sel (fromSteps + i)
    return pgs.reduceOption

/-- `compute_selection_size_in_bytes` for a write-block. -/
def selectionSizeInBytes (timestep : Nat) : Except Fault UInt64 :=
  let typesize := getTypeSize v.origType none
  if sel.isSubPgSelection ≠ 0 then .ok (sel.nelements * typesize)
  else do
    let absoluteIdx : Int :=
      if sel.isAbsoluteIndex ≠ 0 then sel.index else (v.nblocks.take timestep).sum + sel.index
    let theblock ← v.varblock absoluteIdx
    return (theblock.map Segment.count).foldl (· * ·) typesize

/-- `create_writeblock_bounds`. It does not look at what
`compute_absolute_blockidx_from_relative_blockidx` returns. -/
def createWriteblockBounds (timestep : Nat) : Except Fault (List Segment) :=
  if sel.isAbsoluteIndex ≠ 0 then v.varblock sel.index
  else
    match v.absoluteBlockidx timestep sel.index with
    | some blockidx => v.varblock blockidx
    | none => .error .outOfBounds

/-- "For timestep-relative writeblock selections, we add the size of the writeblock (i.e. varblock)
for all previous timesteps in the user's read request." -/
def outputBufferOffset (fromSteps timestep : Nat) : Except Fault UInt64 :=
  if sel.isAbsoluteIndex ≠ 0 then .ok 0
  else
    (List.range (timestep - fromSteps)).foldlM (fun offset i => do
      let size ← selectionSizeInBytes v sel (fromSteps + i)
      return offset + size) 0

end

/-- "Copy any elements that are common to both selections", into a buffer that starts somewhere in
the memory `dst`. -/
def copyCommon (c : Call) (dst : Memory) (dstStart dstElemOffset srcElemOffset : UInt64)
    (srcBuflen : Nat) : Option (UInt64 × UInt64) → Except Fault Memory
  | none => .ok dst
  | some (copyElemOffset, copyNelems) =>
    let typesize := getTypeSize c.datumType none
    let copyDst := dstStart + (copyElemOffset - dstElemOffset) * typesize
    let copySrc := (copyElemOffset - srcElemOffset) * typesize
    let bytes := copyNelems * typesize
    if bytes ≠ 0 ∧ srcBuflen < copySrc.toNat + bytes.toNat then .error .outOfBounds
    else .ok ((c.block copyDst copySrc bytes).apply dst)

/-- `adios_patch_data_wb_to_wb`. It is handed the ragged offset of each buffer and does not use
it. -/
def patchDataWbToWb (c : Call) (dst : Memory) (dstStart : UInt64) (_ : UInt64) (dstWb : WriteBlock)
    (srcBuflen : Nat) (_ : UInt64) (srcWb : WriteBlock) (vbBounds : List Segment) :
    Except Fault Memory :=
  let vbSizeInElements := computeVolume (vbBounds.map Segment.count)
  let dstElemOffset := if dstWb.isSubPgSelection ≠ 0 then dstWb.elementOffset else 0
  let dstNelems := if dstWb.isSubPgSelection ≠ 0 then dstWb.nelements else vbSizeInElements
  let srcElemOffset := if srcWb.isSubPgSelection ≠ 0 then srcWb.elementOffset else 0
  let srcNelems := if srcWb.isSubPgSelection ≠ 0 then srcWb.nelements else vbSizeInElements
  copyCommon c dst dstStart dstElemOffset srcElemOffset srcBuflen
    (intersectSegments dstElemOffset dstNelems srcElemOffset srcNelems)

structure WriteBlockRead where
  v : Variable
  host : Wire.Endian
  swapEndianness : Flag
  mallocZero : Bool
  sel : WriteBlock
  fromSteps : Nat
  nsteps : Nat
  /-- "`assert(from_steps >= 0 && from_steps + nsteps <= raw_varinfo->nsteps)`" -/
  steps : fromSteps + nsteps ≤ v.nblocks.length
  /-- There is a block with the number, in the file or in each of the steps. -/
  there : 0 ≤ sel.index ∧
    if sel.isAbsoluteIndex ≠ 0 then sel.index < v.nblocks.sum
    else ∀ i < nsteps, sel.index < (v.nblocks.getD (fromSteps + i) 0 : Nat)

namespace WriteBlockRead

variable (s : WriteBlockRead)

/-- `apply_datablock_to_result_and_free` with `apply_datablock_to_buffer_local_selections`: the
memory that starts with the user's buffer. -/
def applyDatablockToResult (datablock : Datablock) (userBuffer : Memory) : Except Fault Memory := do
  let offset ← outputBufferOffset s.v s.sel s.fromSteps datablock.timestep
  let vbBounds ← createWriteblockBounds s.v s.sel datablock.timestep
  patchDataWbToWb ⟨s.host, s.v.origType, s.swapEndianness, datablock.data⟩ userBuffer offset 0 s.sel
    datablock.buflen datablock.raggedOffset datablock.bounds vbBounds

def complete (stored : Contents) (pg : PgReadRequest × RawReadRequest) (userBuffer : Memory) :
    Except Fault Memory := do
  let datablock ← pg.1.completed s.mallocZero stored pg.2
  s.applyDatablockToResult datablock userBuffer

def completeAt (stored : Contents) (pgs : List (PgReadRequest × RawReadRequest))
    (userBuffer : Memory) (k : Nat) : Except Fault Memory :=
  match pgs[k]? with
  | some pg => s.complete stored pg userBuffer
  | none => .ok userBuffer

def run (stored : Contents) (order : List Nat) (userBuffer : Memory) : Except Fault Memory := do
  let pgs ← populateReadRequest s.v s.sel s.fromSteps s.nsteps
  order.foldlM (s.completeAt stored pgs) userBuffer

/-! ## The statement -/

def blocks : List Nat :=
  if s.sel.isAbsoluteIndex ≠ 0 then [s.sel.index.toNat]
  else (List.range s.nsteps).map fun i =>
    (s.v.nblocks.take (s.fromSteps + i)).sum + s.sel.index.toNat

def first : Nat := if s.sel.isSubPgSelection ≠ 0 then s.sel.elementOffset.toNat else 0

def count (b : Nat) : Nat :=
  if s.sel.isSubPgSelection ≠ 0 then s.sel.nelements.toNat else s.v.volume b

def before (k : Nat) : Nat := ((s.blocks.take k).map s.count).sum

/-- The selected elements are elements of each block, and the user's buffer is no larger than an
object can be. -/
structure Fits : Prop where
  within : ∀ b ∈ s.blocks, s.first + s.count b ≤ s.v.volume b
  buffer : s.before s.blocks.length * s.v.size < 9223372036854775808

def moved (e : List UInt8) : List UInt8 :=
  if s.swapEndianness = .yes then byteSwapped s.v.origType e else e

/-- Whatever is stored, whatever is in the user's memory and in whatever order the process groups
complete: the selected elements of the blocks are in the user's buffer, one after the other, and
nothing else has changed. -/
def Delivered : Prop :=
  ∀ (stored : Contents) (userBuffer : Memory) (order : List Nat),
    order.Perm (List.range s.blocks.length) →
    ∃ out, s.run stored order userBuffer = .ok out ∧
      (∀ k b, s.blocks[k]? = some b → ∀ e < s.count b,
        element out s.v.size (s.before k + e) =
          s.moved (element (stored b) s.v.size (s.first + e))) ∧
      ∀ a : Int, a < 0 ∨ (s.before s.blocks.length * s.v.size : Nat) ≤ a → out a = userBuffer a

/-- What is selected of a block starts with the block, and its number of elements is an `int` and
not larger than the `int` that the number of elements of the block becomes. For an empty selection
`malloc (0)` is not `NULL`; and if it is behind the start of the block, it does not seem to be in
the block, or the `int` of its place is not larger than that of the end of the block. -/
def Clear (b : Nat) : Prop :=
  if s.count b = 0 then s.mallocZero = true ∧
    (s.first = 0 ∨ cut (s.v.volume b) ≤ cut s.first ∨ signed s.first ≤ signed (s.v.volume b))
  else s.first = 0 ∧ s.count b < 2147483648 ∧ (s.count b : Int) ≤ signed (s.v.volume b)

end WriteBlockRead

structure FittingRead extends WriteBlockRead where
  fits : toWriteBlockRead.Fits

end Adios.Transforms
