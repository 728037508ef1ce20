import Adios.Core.CopiedSubvolume
import Adios.Core.Intersection

/-!
# Core — copy specs

`core/adios_copyspec.c`: where a subvolume is in the volume of the destination and in that of the
source. A spec is made from two boxes, or from another spec by taking the subvolume for one of the
volumes; `adios_copyspec_is_noop` is asked before a volume is copied onto itself.
-/

namespace Adios.CopySpec

open CopySubvolume Subvolume Grid

/-! ## The code -/

/-- `adios_subvolume_copy_spec` -/
structure SubvolumeCopySpec where
  ndim : Nat
  subvDims : List UInt64
  dstDims : List UInt64
  dstSubvOffsets : List UInt64
  srcDims : List UInt64
  srcSubvOffsets : List UInt64
  deriving DecidableEq

/-- "`const int dimsize = ndim * sizeof(uint64_t);`" -/
def dimsize (ndim : Nat) : Int := signed (8 * ndim)

/-- `bufdup (buf, 1, dimsize)`. A negative size is, as a `uint64_t`, more than `malloc` has, and
nothing is there to be copied to. -/
def bufdup (buf : List UInt64) (dimsize : Int) : Except Fault (List UInt64) :=
  if dimsize < 0 then throw .wildPointer
  else if buf.length * 8 < dimsize.toNat then throw .outOfBounds
  else return buf.take (dimsize.toNat / 8)

/-- "`dims ? bufdup(dims, 1, dimsize) : malloc(dimsize)`"; nothing can be read from what `malloc`
returns. -/
def dupOrMalloc (dims : Option (List UInt64)) (dimsize : Int) : Except Fault (List UInt64) :=
  match dims with
  | some dims => bufdup dims dimsize
  | none => return []

/-- `adios_copyspec_init_from_bufs` -/
def copyspecInitFromBufs (ndim : Nat)
    (subvDims dstDims dstSubvOffsets srcDims srcSubvOffsets : Option (List UInt64)) :
    Except Fault SubvolumeCopySpec := do
  return {
    ndim
    subvDims := ← dupOrMalloc subvDims (dimsize ndim)
    dstDims := ← dupOrMalloc dstDims (dimsize ndim)
    dstSubvOffsets := ← dupOrMalloc dstSubvOffsets (dimsize ndim)
    srcDims := ← dupOrMalloc srcDims (dimsize ndim)
    srcSubvOffsets := ← dupOrMalloc srcSubvOffsets (dimsize ndim) }

/-- `adios_copyspec_init_from_intersection`, the spec if it returns 1. -/
def copyspecInitFromIntersection (ndim : Nat) (dst src : List Segment) :
    Except Fault (Option SubvolumeCopySpec) := do
  let copySpec ← copyspecInitFromBufs ndim none (some (dst.map Segment.count)) none
    (some (src.map Segment.count)) none
  match intersectVolumes dst src with
  | some inter => return some { copySpec with
      subvDims := inter.map Common.dims
      dstSubvOffsets := inter.map Common.offsetRel1
      srcSubvOffsets := inter.map Common.offsetRel2 }
  | none => return none

/-- `adios_copyspec_shrink_dst_to_subv` -/
def copyspecShrinkDstToSubv (srcCopySpec : SubvolumeCopySpec) : Except Fault SubvolumeCopySpec :=
  copyspecInitFromBufs srcCopySpec.ndim (some srcCopySpec.subvDims)
    (some srcCopySpec.subvDims) (some (List.replicate srcCopySpec.ndim 0))
    (some srcCopySpec.srcDims) (some srcCopySpec.srcSubvOffsets)

/-- `adios_copyspec_shrink_src_to_subv` -/
def copyspecShrinkSrcToSubv (srcCopySpec : SubvolumeCopySpec) : Except Fault SubvolumeCopySpec :=
  copyspecInitFromBufs srcCopySpec.ndim (some srcCopySpec.subvDims)
    (some srcCopySpec.dstDims) (some srcCopySpec.dstSubvOffsets)
    (some srcCopySpec.subvDims) (some (List.replicate srcCopySpec.ndim 0))

/-- "`memcmp(dims1, dims2, dimsize) == 0`"; a negative `dimsize` goes beyond every array. -/
def sameBytes (dims1 dims2 : List UInt64) (dimsize : Int) : Except Fault Bool :=
  if dimsize < 0 ∨ dims1.length * 8 < dimsize.toNat ∨ dims2.length * 8 < dimsize.toNat then
    throw .outOfBounds
  else return dims1.take (dimsize.toNat / 8) == dims2.take (dimsize.toNat / 8)

def zeroOffsets : Nat → List UInt64 → List UInt64 → Except Fault Bool
  | 0, _, _ => return true
  | ndim + 1, dst :: dstSubvOffsets, src :: srcSubvOffsets =>
    if dst ≠ 0 ∨ src ≠ 0 then return false else zeroOffsets ndim dstSubvOffsets srcSubvOffsets
  | _, _, _ => throw .outOfBounds

/-- `adios_copyspec_is_noop` -/
def copyspecIsNoop (copySpec : SubvolumeCopySpec) : Except Fault Bool := do
  let dimsize := dimsize copySpec.ndim
  -- "If the source, destination and subvolume dimensions are not all equal"
  if !(← sameBytes copySpec.srcDims copySpec.dstDims dimsize) then return false
  if !(← sameBytes copySpec.srcDims copySpec.subvDims dimsize) then return false
  zeroOffsets copySpec.ndim copySpec.dstSubvOffsets copySpec.srcSubvOffsets

def SubvolumeCopySpec.axes (copySpec : SubvolumeCopySpec) : List Axis :=
  (copySpec.subvDims.zip (copySpec.dstDims.zip (copySpec.dstSubvOffsets.zip
    (copySpec.srcDims.zip copySpec.srcSubvOffsets)))).map fun a =>
      ⟨a.1, a.2.1, a.2.2.1, a.2.2.2.1, a.2.2.2.2⟩

/-- `copy_subvolume_ragged_offset_with_spec`, which puts `subv_dims` back before it returns. With no
ragged offsets it is `copy_subvolume_with_spec`. -/
def copySubvolumeRaggedOffsetWithSpec (c : Call) (copySpec : SubvolumeCopySpec)
    (dstRaggedOffset srcRaggedOffset : UInt64) (dst : Memory) : Except Fault Memory := do
  if copySpec.axes.length < copySpec.ndim then throw .outOfBounds
  let (dst, _) ← copySubvolumeRaggedOffset c (copySpec.axes.take copySpec.ndim) dstRaggedOffset
    srcRaggedOffset dst
  return dst

/-- `copy_subvolume_with_spec` -/
def copySubvolumeWithSpec (c : Call) (copySpec : SubvolumeCopySpec) (dst : Memory) :
    Except Fault Memory :=
  copySubvolumeRaggedOffsetWithSpec c copySpec 0 0 dst

/-- `adios_copyspec_init` of arrays that have an entry for each dimension. -/
def copyspecInit (axes : List Axis) : SubvolumeCopySpec where
  ndim := axes.length
  subvDims := axes.map Axis.subv
  dstDims := axes.map Axis.dst
  dstSubvOffsets := axes.map Axis.dstOffset
  srcDims := axes.map Axis.src
  srcSubvOffsets := axes.map Axis.srcOffset

/-! ## What a spec from two boxes is for -/

structure Boxes where
  dims : List (Segment × Segment)
  ndim : dims ≠ []

namespace Boxes

variable (b : Boxes)

def dst : List Segment := b.dims.map Prod.fst

def src : List Segment := b.dims.map Prod.snd

def Shared (p : List Nat) : Prop := Elements b.dst p ∧ Elements b.src p

def position (vol : List Segment) (p : List Nat) : Nat := place (vol.map Segment.span) p

def elements (vol : List Segment) : Nat := volume (sizes (vol.map Segment.span))

structure Held (c : Call) : Prop where
  numeric : c.datumType.IsNumeric
  dst : elements b.dst * c.size < 18446744073709551616
  src : elements b.src * c.size < 18446744073709551616

structure Moved (c : Call) (dst out : Memory) : Prop where
  elements : ∀ p, b.Shared p → element out c.size (position b.dst p) =
    c.moved (element c.src c.size (position b.src p))
  frame : ∀ a : Int, (∀ p, b.Shared p → a < (position b.dst p * c.size : Nat) ∨
    ((position b.dst p + 1) * c.size : Nat) ≤ a) → out a = dst a

def subvolumeBox (vol : List Segment) (offsets subvDims : List UInt64) : List Span :=
  List.zipWith (fun s x => ⟨s.start.toNat + x.1.toNat, x.2.toNat⟩) vol (offsets.zip subvDims)

structure Describes (copySpec : SubvolumeCopySpec) : Prop where
  dst : ∀ p, Contains (subvolumeBox b.dst copySpec.dstSubvOffsets copySpec.subvDims) p ↔ b.Shared p
  src : ∀ p, Contains (subvolumeBox b.src copySpec.srcSubvOffsets copySpec.subvDims) p ↔ b.Shared p

/-- There is a spec exactly if the boxes share an element, and it describes and moves what they
share. -/
def InitRight : Prop :=
  ∃ r, copyspecInitFromIntersection b.dims.length b.dst b.src = .ok r ∧
    (r.isSome = true ↔ ∃ p, b.Shared p) ∧
    ∀ copySpec ∈ r, b.Describes copySpec ∧ ∀ (c : Call) (dst : Memory), b.Held c →
      ∃ out, copySubvolumeWithSpec c copySpec dst = .ok out ∧ b.Moved c dst out

def commonAxis (d : Segment × Segment) : Axis where
  subv := UInt64.ofNat (min d.1.stop d.2.stop - max d.1.start.toNat d.2.start.toNat)
  dst := d.1.count
  dstOffset := UInt64.ofNat (max d.1.start.toNat d.2.start.toNat - d.1.start.toNat)
  src := d.2.count
  srcOffset := UInt64.ofNat (max d.1.start.toNat d.2.start.toNat - d.2.start.toNat)

def axes : List Axis := b.dims.map commonAxis

end Boxes

/-- A copy has room for its strides, and an `int` counts the rounds of each loop it reaches. -/
def Counted (axes : List Axis) : Prop :=
  axes.length ≤ strideRoom ∧ IntLoops ((axes.map Axis.subv).take (lastNoncoveringDim axes))

/-- The size of the arrays is an `int`; and the boxes share elements, their ends and starts come
through the `int`s, and the copy is counted if there can be buffers for it, or they share none and
some dimension shows it. -/
structure Boxes.Clear (b : Boxes) : Prop where
  size : 0 ≤ dimsize b.dims.length
  ends : ((∀ d ∈ b.dims, Meet d.1 d.2 ∧ ¬Apart d.1 d.2 ∧ Volumes.HeldInOrder d.1 d.2) ∧
      (Boxes.elements b.dst < 18446744073709551616 →
        Boxes.elements b.src < 18446744073709551616 → Counted b.axes)) ∨
    (∃ d ∈ b.dims, ¬Meet d.1 d.2) ∧ ∃ d ∈ b.dims, Apart d.1 d.2

/-- Through a temporary: "shrunk" to the subvolume on the side of the destination, then on the side
of the source, with a swap of the bytes or not on either way. -/
def copyThrough (s : Copy) (swap swap' : Flag) (tmp : Memory) : Except Fault Memory := do
  let toTmp ← copyspecShrinkDstToSubv (copyspecInit s.axes)
  let fromTmp ← copyspecShrinkSrcToSubv (copyspecInit s.axes)
  let tmp ← copySubvolumeRaggedOffsetWithSpec { s.call with swapEndianness := swap } toTmp 0
    s.srcRaggedOffset tmp
  copySubvolumeRaggedOffsetWithSpec { s.call with src := tmp, swapEndianness := swap' } fromTmp
    s.dstRaggedOffset 0 s.dst

def ThroughRight (s : Copy) : Prop :=
  ∃ out, copySubvolumeRaggedOffsetWithSpec s.call (copyspecInit s.axes) s.dstRaggedOffset
      s.srcRaggedOffset s.dst = .ok out ∧
    ∀ (swap swap' : Flag) (tmp : Memory),
      (s.call.swapEndianness = .yes ↔ ¬(swap = .yes ↔ swap' = .yes)) →
        copyThrough s swap swap' tmp = .ok out

/-! ## What the no-op test is for -/

def overlaid (src dst : Memory) (bytes : Nat) : Memory := fun a =>
  if 0 ≤ a ∧ a < bytes then src a else dst a

/-- The test holds exactly if both boxes are the subvolume, and then the copy gives the destination
what is in the source. -/
def NoopRight (axes : List Axis) : Prop :=
  ∃ noop, copyspecIsNoop (copyspecInit axes) = .ok noop ∧
    (noop = true ↔ ∀ a ∈ axes, a.Covering) ∧
    (noop = true → ∀ s : Copy, s.axes = axes → s.call.swapEndianness ≠ .yes →
      s.dstRaggedOffset = 0 → s.srcRaggedOffset = 0 →
        copySubvolumeWithSpec s.call (copyspecInit axes) s.dst =
          .ok (overlaid s.call.src s.dst (volume (subvolume axes) * s.call.size)))

/-- The dimensions are the same as far as `dimsize` goes, and all offsets are zero. -/
def Compared (axes : List Axis) : Prop :=
  (∀ a ∈ axes.take ((dimsize axes.length).toNat / 8), a.subv = a.src ∧ a.src = a.dst) ∧
    ∀ a ∈ axes, a.dstOffset = 0 ∧ a.srcOffset = 0

instance (axes : List Axis) : Decidable (Compared axes) := inferInstanceAs (Decidable (_ ∧ _))

/-- The part of the arrays that is compared decides, and a copy of volumes that a buffer can hold has
room for its strides. -/
structure NoopClear (axes : List Axis) : Prop where
  size : 0 ≤ dimsize axes.length
  decides : Compared axes → ∀ a ∈ axes, a.Covering
  room : (∀ a ∈ axes, a.Covering) → volume (subvolume axes) < 18446744073709551616 →
    axes.length ≤ strideRoom

end Adios.CopySpec
