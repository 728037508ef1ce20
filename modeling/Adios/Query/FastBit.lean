import Adios.Grid.Boxes
import Adios.Lists.Marks
import Adios.Query.Bitmap

/-!
# Adios — a leaf evaluated block by block

`evaluateWithIdxOnBoundingBox` of the FastBit method for a leaf: the blocks that it goes through,
and the entries of the bit slice that it sets for the hits of each block. The hits come from
FastBit. Arrays of coordinates and extents are lists with the dimension first that the recursion on
`n` comes to first: dimension `ndim - 1`, or dimension 0 for a caller from Fortran.
-/

namespace Adios.FastBit

/-! ## The variable -/

/-- `ADIOS_VARINFO` with its blocks, those of each step. `nblocks` and `blockinfo` are arrays made
from these. -/
structure VarInfo where
  dims : List UInt64
  steps : List (List BoundingBox)
  deriving DecidableEq

def VarInfo.nsteps (v : VarInfo) : Nat := v.steps.length

def VarInfo.nblocks (v : VarInfo) : List Nat := v.steps.map (·.length)

def VarInfo.blockinfo (v : VarInfo) : List BoundingBox := v.steps.flatten

/-- The `int` that an unsigned number is stored in, in a comparison with unsigned numbers. -/
def throughInt (x : UInt64) : UInt64 :=
  let low := x % 4294967296
  if low < 2147483648 then low else low + 18446744069414584320

/-- The loop over `j`: no dimension puts the point outside the block. -/
def blockTakes (block : BoundingBox) (point : List UInt64) : Bool :=
  ((block.start.zip block.count).zip point).all fun ((start, count), x) =>
    throughInt start ≤ x && x < throughInt (start + count)

/-- `fastbit_adios_util_getRelativeBlockNumForPoint` -/
def getRelativeBlockNumForPoint (v : VarInfo) (point : List UInt64) (timestep : Nat) : Int :=
  let sum := (v.nblocks.take timestep).foldl (· + ·) 0
  let blocks :=
    if v.nsteps = 1 then v.blockinfo
    else (v.blockinfo.drop sum).take (v.nblocks.getD timestep 0)
  match blocks.findIdx? fun block => v.dims ≠ [] && blockTakes block point with
  | some i => i
  | none => -1

/-! ## Positions -/

/-- The dimensions of a block or box as the recursions on `n` come to them. -/
def slices (fortran : Bool) (b : BoundingBox) : List (UInt64 × UInt64) :=
  if fortran then b.start.zip b.count else (b.start.zip b.count).reverse

/-- `getCoordinateFromBlock`: `coordinates [n - 1]` first. -/
def getCoordinateFromBlock : List (UInt64 × UInt64) → UInt64 → Except Fault (List UInt64)
  | [], _ => .error .outOfBounds
  | [(start, _)], pos => .ok [pos + start]
  | (start, lastDimSize) :: slices, pos => do
    if lastDimSize = 0 then .error .divisionByZero
    else
      let res := pos % lastDimSize
      let stepUp := (pos - res) / lastDimSize
      let coordinates ← getCoordinateFromBlock slices stepUp
      return (res + start) :: coordinates

/-- The check of `getPosInBox`. -/
def insideBox (slices : List (UInt64 × UInt64)) (coordinates : List UInt64) : Bool :=
  (slices.zip coordinates).all fun ((start, count), x) => !(x ≥ count + start) && !(x < start)

/-- The recursion of `getPosInBox`. -/
def posInBox : List (UInt64 × UInt64) → List UInt64 → UInt64
  | [(start, _)], [x] => x - start
  | (start, count) :: slices, x :: coordinates => (x - start) + count * posInBox slices coordinates
  | _, _ => 0

/-- An `int64_t`. -/
def toInt64 (x : UInt64) : Int :=
  if x < 9223372036854775808 then x.toNat else x.toNat - 18446744073709551616

/-- `getPosInBox` -/
def getPosInBox (slices : List (UInt64 × UInt64)) (coordinates : List UInt64) : Int :=
  if slices = [] then -1
  else if insideBox slices coordinates then toInt64 (posInBox slices coordinates)
  else -1

/-- The recursion of `getPosInVariable`, with the last dimension first. -/
def posInVariable : List UInt64 → List UInt64 → UInt64
  | [_], [x] => x
  | d :: dims, x :: coordinates => x + d * posInVariable dims coordinates
  | _, _ => 0

/-- `getPosInVariable`: the order of the dimensions is not that of the caller. -/
def getPosInVariable (v : VarInfo) (coordinates : List UInt64) : Int :=
  if v.dims = [] then -1 else toInt64 (posInVariable v.dims.reverse coordinates)

/-- `getRelativeIdxInBoundingBox` -/
def getRelativeIdxInBoundingBox (fortran : Bool) (currPosInBlock : UInt64) (bb : BoundingBox)
    (blockSel : BoundingBox) : Except Fault Int := do
  let spatialCoordinates ← getCoordinateFromBlock (slices fortran blockSel) currPosInBlock
  return getPosInBox (slices fortran bb) spatialCoordinates

/-- `getRelativeIdxInVariable` -/
def getRelativeIdxInVariable (fortran : Bool) (currPosInBlock : UInt64) (v : VarInfo)
    (blockSel : BoundingBox) : Except Fault Int := do
  let spatialCoordinates ← getCoordinateFromBlock (slices fortran blockSel) currPosInBlock
  return getPosInVariable v spatialCoordinates

/-! ## The evaluation -/

/-- What `evaluateWithIdxOnBoundingBox` leaves behind: nothing when it returns -1 or 0, else the
slice that it registers. -/
inductive Evaluation where
  | refused
  | noElements
  | slice (bits : List UInt16)
  deriving DecidableEq

/-- What a leaf is evaluated with; `handle` gives the hits of a block of the time step, or
`NULL`. -/
structure Leaf where
  fortran : Bool
  varinfo : VarInfo
  sel : Option BoundingBox
  rawDataSize : UInt64
  timeStep : Nat
  handle : Nat → Option (List UInt64)

/-- `blockStart` and `blockEnd` -/
def Leaf.blockRange (l : Leaf) : Int × Int :=
  match l.sel with
  | none =>
    if l.varinfo.nsteps = 1 then (0, l.varinfo.nblocks.getD 0 0 - 1)
    else (0, l.varinfo.nblocks.getD l.timeStep 0 - 1)
  | some bb =>
    (getRelativeBlockNumForPoint l.varinfo bb.start l.timeStep,
      getRelativeBlockNumForPoint l.varinfo
        (List.zipWith (fun start count => start + count - 1) bb.start bb.count) l.timeStep)

/-- `sumBlocksBeforeThisTimeStep`, which is assigned in each round of its loop. -/
def Leaf.sumBlocksBeforeThisTimeStep (l : Leaf) : Nat :=
  if 1 < l.varinfo.nsteps then
    (List.range l.timeStep).foldl (fun _ i => l.varinfo.nblocks.getD i 0) 0
  else 0

/-- `currPos` for a hit of a block. -/
def Leaf.currPos (l : Leaf) (currBlockIdx : Nat) (currPosInBlock : UInt64) : Except Fault Int :=
  match l.varinfo.blockinfo[currBlockIdx + l.sumBlocksBeforeThisTimeStep]? with
  | none => .error .outOfBounds
  | some blockSel =>
    match l.sel with
    | some bb => getRelativeIdxInBoundingBox l.fortran currPosInBlock bb blockSel
    | none => getRelativeIdxInVariable l.fortran currPosInBlock l.varinfo blockSel

/-- The entry of `bitSlice` that is set for a hit of a block. -/
def Leaf.entry (l : Leaf) (hit : Nat × UInt64) : Except Fault (Option Nat) :=
  (l.currPos hit.1 hit.2).map fun currPos => if 0 ≤ currPos then some currPos.toNat else none

def Leaf.setHits (l : Leaf) (currBlockIdx : Nat) (hits : List UInt64) (bitSlice : List UInt16) :
    Except Fault (List UInt16) :=
  (hits.map (currBlockIdx, ·)).foldlM (Lists.mark 1 .outOfBounds l.entry) bitSlice

def Leaf.evaluateBlocks (l : Leaf) : List Nat → List UInt16 → Except Fault Evaluation
  | [], bitSlice => .ok (.slice bitSlice)
  | currBlockIdx :: blocks, bitSlice =>
    match l.handle currBlockIdx with
    | none => .ok .refused
    | some hits => do
      let bitSlice ← l.setHits currBlockIdx hits bitSlice
      l.evaluateBlocks blocks bitSlice

/-- `evaluateWithIdxOnBoundingBox` for a leaf. The entries are set to 0 in a loop over an `int`. -/
def evaluateWithIdxOnBoundingBox (l : Leaf) : Except Fault Evaluation :=
  let (blockStart, blockEnd) := l.blockRange
  if l.rawDataSize = 0 then .ok .noElements
  else if blockStart < 0 ∨ blockEnd < 0 ∨ blockStart > blockEnd then .ok .refused
  else if 2147483647 < l.rawDataSize then .error .signedOverflow
  else
    l.evaluateBlocks (List.range' blockStart.toNat (blockEnd.toNat + 1 - blockStart.toNat))
      (List.replicate l.rawDataSize.toNat 0)

end Adios.FastBit
