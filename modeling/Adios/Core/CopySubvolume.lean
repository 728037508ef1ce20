import Adios.Endianness
import Adios.Grid.RowMajor
import Adios.Heap.Writes

/-!
# Core — copying a part of an array into another one

`copy_subvolume_ragged_offset` of `core/adios_subvolume.c` and `change_endianness` of `core/util.c`.
A buffer is the memory around the pointer to it, a cell for each distance; the source and the
destination do not overlap. Distances are 64-bit numbers, as the code adds and multiplies them.
-/

namespace Adios.CopySubvolume

/-! ## The code -/

/-- `bp_get_type_size (type, "")`, as the number that a `uint64_t` is divided by. -/
def bpGetTypeSize (type : Datatype) : UInt64 :=
  if type = .string then 1 else getTypeSize type none

section

variable (host : Wire.Endian)

/-- What `change_endianness` does at `ptr` in one round. -/
def swapElement (type : Datatype) (ptr : List UInt8) : List UInt8 :=
  match type with
  | .complex =>
    -- "swap REAL part 4 bytes", "swap IMG part 4 bytes"
    swap32Ptr host (ptr.take 4) ++ swap32Ptr host (ptr.drop 4)
  | .doubleComplex => swap64Ptr host (ptr.take 8) ++ swap64Ptr host (ptr.drop 8)
  | .string | .unknown | .other _ => ptr
  | _ =>
    let size := bpGetTypeSize type
    if size = 2 then swap16Ptr host ptr
    else if size = 4 then swap32Ptr host ptr
    else if size = 8 then swap64Ptr host ptr
    else if size = 16 then swap128Ptr host ptr
    else ptr

def eachElement (f : List UInt8 → List UInt8) (size : Nat) : Nat → List UInt8 → List UInt8
  | 0, data => data
  | n + 1, data => f (data.take size) ++ eachElement f size n (data.drop size)

/-- `change_endianness` of a slice. -/
def changeEndianness (data : List UInt8) (type : Datatype) : List UInt8 :=
  let size := (bpGetTypeSize type).toNat
  eachElement (swapElement host type) size (data.length / size) data

end

abbrev Memory := Int → UInt8

def read (mem : Memory) (addr n : Nat) : List UInt8 :=
  (List.range n).map fun k => mem (addr + k : Nat)

structure Axis where
  subv : UInt64
  dst : UInt64
  dstOffset : UInt64
  src : UInt64
  srcOffset : UInt64

structure Call where
  host : Wire.Endian
  datumType : Datatype
  swapEndianness : Flag
  src : Memory

namespace Call

variable (c : Call)

/-- "`memcpy(dst, src, *next_subv_dim)`" and the swap of what has been copied, in place. -/
def block (dst src n : UInt64) : Heap.Write UInt8 where
  addr := dst.toNat
  cells :=
    let data := read c.src src.toNat n.toNat
    if c.swapEndianness = .yes then changeEndianness c.host data c.datumType else data

end Call

/-- "`for (i = 0; i < *next_subv_dim; i++)`" with an `int i`, from a value of `i` on and for the
rounds that are left. -/
def helperLoop (body : UInt64 → UInt64 → Memory → Except Fault Memory)
    (dstStride srcStride : UInt64) (i : Nat) :
    Nat → UInt64 → UInt64 → Memory → Except Fault Memory
  | 0, _, _, mem => .ok mem
  | left + 1, dst, src, mem => do
    let mem ← body dst src mem
    if i = 2147483647 then throw .signedOverflow
    else helperLoop body dstStride srcStride (i + 1) left (dst + dstStride) (src + srcStride) mem

/-- `copy_subvolume_helper`; `ndim` is one more than the number here. -/
def copySubvolumeHelper (c : Call) :
    Nat → List UInt64 → List UInt64 → List UInt64 → UInt64 → UInt64 → Memory → Except Fault Memory
  | 0, d :: _, _, _, dst, src, mem => .ok ((c.block dst src d).apply mem)
  | ndim + 1, d :: dims, dstStride :: dstStrides, srcStride :: srcStrides, dst, src, mem =>
    helperLoop (copySubvolumeHelper c ndim dims dstStrides srcStrides) dstStride srcStride 0 d.toNat
      dst src mem
  | _, _, _, _, _, _, _ => .error .outOfBounds

/-- Subvolume, source and destination "exactly match along this dimension". -/
def Axis.Covering (a : Axis) : Prop :=
  a.srcOffset = 0 ∧ a.dstOffset = 0 ∧ a.subv = a.src ∧ a.subv = a.dst

instance (a : Axis) : Decidable a.Covering := inferInstanceAs (Decidable (_ ∧ _))

/-- The loop for `last_noncovering_dim`, from a value of `i` on. -/
def lastNoncoveringLoop (i last : Nat) : List Axis → Nat
  | [] => last
  | a :: axes => lastNoncoveringLoop (i + 1) (if a.Covering then last else i) axes

def lastNoncoveringDim (axes : List Axis) : Nat := lastNoncoveringLoop 0 0 axes

def stridesLoop (typeSize : UInt64) : List UInt64 → List UInt64 × UInt64
  | [] => ([], typeSize)
  | d :: dims => ((stridesLoop typeSize dims).2 :: (stridesLoop typeSize dims).1,
      (stridesLoop typeSize dims).2 * d)

/-- "`for (i = 0; i < ndim; i++) src_offset += src_subv_offsets[i] * src_strides[i];`" -/
def startingOffset (offsets strides : List UInt64) : UInt64 :=
  (List.zipWith (· * ·) offsets strides).foldl (· + ·) 0

/-- What `src_strides` and `dst_strides` have room for. -/
def strideRoom : Nat := 32

/-- `copy_subvolume_ragged_offset` from "`contig_dims_volume`" on, with the contiguous block from a
dimension on: the destination and the dimensions of the subvolume behind it. -/
def copyCollapsed (c : Call) (axes : List Axis) (dstRaggedOffset srcRaggedOffset : UInt64)
    (dst : Memory) (dim : Nat) : Except Fault (Memory × List UInt64) := do
  let typeSize := getTypeSize c.datumType none
  let subvDims := axes.map Axis.subv
  let contigDimsVolume := (subvDims.drop dim).foldl (· * ·) 1 * typeSize
  -- the strides are stored from the last dimension on
  if strideRoom < axes.length then throw .outOfBounds
  let srcStrides := (stridesLoop typeSize (axes.map Axis.src)).1
  let dstStrides := (stridesLoop typeSize (axes.map Axis.dst)).1
  let srcOffset := startingOffset (axes.map Axis.srcOffset) srcStrides - srcRaggedOffset * typeSize
  let dstOffset := startingOffset (axes.map Axis.dstOffset) dstStrides - dstRaggedOffset * typeSize
  let firstContigDimValueOld := subvDims.getD dim 0
  let subvDims := subvDims.set dim contigDimsVolume
  let dst ← copySubvolumeHelper c dim subvDims dstStrides srcStrides dstOffset srcOffset dst
  return (dst, subvDims.set dim firstContigDimValueOld)

/-- `copy_subvolume_ragged_offset` -/
def copySubvolumeRaggedOffset (c : Call) (axes : List Axis)
    (dstRaggedOffset srcRaggedOffset : UInt64) (dst : Memory) :
    Except Fault (Memory × List UInt64) :=
  copyCollapsed c axes dstRaggedOffset srcRaggedOffset dst (lastNoncoveringDim axes)

/-! ## The code, with what is done with a block left open -/

/-- `copy_subvolume_helper` with its first branch, for a destination, a source and a size. -/
def copySubvolumeHelperBy (block : UInt64 → UInt64 → UInt64 → Memory → Memory) :
    Nat → List UInt64 → List UInt64 → List UInt64 → UInt64 → UInt64 → Memory → Except Fault Memory
  | 0, d :: _, _, _, dst, src, mem => .ok (block dst src d mem)
  | ndim + 1, d :: dims, dstStride :: dstStrides, srcStride :: srcStrides, dst, src, mem =>
    helperLoop (copySubvolumeHelperBy block ndim dims dstStrides srcStrides) dstStride srcStride 0
      d.toNat dst src mem
  | _, _, _, _, _, _, _ => .error .outOfBounds

/-- `copyCollapsed` of a type of elements. -/
def copyCollapsedBy (block : UInt64 → UInt64 → UInt64 → Memory → Memory) (datumType : Datatype)
    (axes : List Axis) (dstRaggedOffset srcRaggedOffset : UInt64) (dst : Memory) (dim : Nat) :
    Except Fault (Memory × List UInt64) := do
  let typeSize := getTypeSize datumType none
  let subvDims := axes.map Axis.subv
  let contigDimsVolume := (subvDims.drop dim).foldl (· * ·) 1 * typeSize
  if strideRoom < axes.length then throw .outOfBounds
  let srcStrides := (stridesLoop typeSize (axes.map Axis.src)).1
  let dstStrides := (stridesLoop typeSize (axes.map Axis.dst)).1
  let srcOffset := startingOffset (axes.map Axis.srcOffset) srcStrides - srcRaggedOffset * typeSize
  let dstOffset := startingOffset (axes.map Axis.dstOffset) dstStrides - dstRaggedOffset * typeSize
  let firstContigDimValueOld := subvDims.getD dim 0
  let subvDims := subvDims.set dim contigDimsVolume
  let dst ← copySubvolumeHelperBy block dim subvDims dstStrides srcStrides dstOffset srcOffset dst
  return (dst, subvDims.set dim firstContigDimValueOld)

theorem copySubvolumeHelper_eq_by (c : Call) (ndim : Nat) :
    copySubvolumeHelper c ndim =
      copySubvolumeHelperBy (fun dst src n mem => (c.block dst src n).apply mem) ndim := by
  induction ndim with
  | zero =>
    funext dims dstStrides srcStrides dst src mem
    cases dims with
    | nil => rfl
    | cons d dims => rfl
  | succ ndim ih =>
    funext dims dstStrides srcStrides dst src mem
    match dims, dstStrides, srcStrides with
    | [], _, _ => rfl
    | _ :: _, [], _ => rfl
    | _ :: _, _ :: _, [] => rfl
    | d :: dims, dstStride :: dstStrides, srcStride :: srcStrides =>
      rw [copySubvolumeHelper, copySubvolumeHelperBy, ih]

theorem copyCollapsed_eq_by (c : Call) (axes : List Axis)
    (dstRaggedOffset srcRaggedOffset : UInt64) (dst : Memory) (dim : Nat) :
    copyCollapsed c axes dstRaggedOffset srcRaggedOffset dst dim =
      copyCollapsedBy (fun dst src n mem => (c.block dst src n).apply mem) c.datumType axes
        dstRaggedOffset srcRaggedOffset dst dim := by
  unfold copyCollapsed copyCollapsedBy
  rw [copySubvolumeHelper_eq_by]

end Adios.CopySubvolume
