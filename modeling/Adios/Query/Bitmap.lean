import Adios.Types
import Mathlib.Algebra.Ring.Nat

/-!
# Adios — the bitmap of a query

`ADIOS_ALAC_BITMAP`: the tables that the bits are looked up in, the number of bits that are set,
the points of some of them, and the calls of `adios_query_alac_evaluate` that ask for one batch of
points after the other. What the query sets in the bitmap is not part of this module. The machine
is a little-endian one: the first 16 bits of a word in memory are its lowest.
-/

namespace Adios

/-- `ADIOS_ALAC_BITMAP`: the words, their number, the number of elements that the bits stand for,
and the last element that was returned. -/
structure AlacBitmap where
  bits : List UInt64
  length : UInt64
  numSetBits : UInt64
  realElmSize : UInt64
  lastConvRid : UInt64
  deriving DecidableEq, Repr

/-- The words that a loop over `b->length` reads. -/
def AlacBitmap.words (b : AlacBitmap) : List UInt64 := b.bits.take b.length.toNat

/-- `BITNSLOTS64` -/
def bitSlots (nb : UInt64) : UInt64 := (nb + 64 - 1) / 64

/-- `ADIOS_SELECTION_BOUNDINGBOX_STRUCT`: `start` and `count` are arrays of `ndim` values. -/
structure BoundingBox where
  start : List UInt64
  count : List UInt64
  start_length : start.length = count.length
  deriving DecidableEq, Repr

/-- `MAX_DIMS` -/
def maxDims : Nat := 32

/-- `rid_t`: the type of the library of the index, for which the code takes variables of type
`uint32_t`. -/
abbrev Rid : Type := UInt32

/-! ## Tables -/

/-- The macros `B2`, `B4` and `B6`. -/
def bitsInCharB2 (n : Nat) : List Nat := [n, n + 1, n + 1, n + 2]

def bitsInCharB4 (n : Nat) : List Nat :=
  bitsInCharB2 n ++ bitsInCharB2 (n + 1) ++ bitsInCharB2 (n + 1) ++ bitsInCharB2 (n + 2)

def bitsInCharB6 (n : Nat) : List Nat :=
  bitsInCharB4 n ++ bitsInCharB4 (n + 1) ++ bitsInCharB4 (n + 1) ++ bitsInCharB4 (n + 2)

/-- `bits_in_char` -/
def bitsInChar (c : Nat) : Nat :=
  (bitsInCharB6 0 ++ bitsInCharB6 1 ++ bitsInCharB6 1 ++ bitsInCharB6 2).getD c 0

/-- `set_bit_count [i]` as `init_lookup` fills it. -/
def setBitCount (i : Nat) : Nat :=
  bitsInChar (i % 256) + bitsInChar (i / 2 ^ 8 % 256) + bitsInChar (i / 2 ^ 16 % 256)
    + bitsInChar (i / 2 ^ 24 % 256)

/-- The loop of `init_lookup` over the bits below `j`, from the highest on; `counter` is one more
than the variable of that name. -/
def fillSetBitPosition (i : Nat) : (j counter : Nat) → List Nat → Except Fault (List Nat)
  | 0, _, row => .ok row
  | j + 1, counter, row =>
    if i.testBit j then
      match counter with
      | 0 => .error .outOfBounds
      | counter + 1 => fillSetBitPosition i j counter (row.set counter j)
    else fillSetBitPosition i j counter row

/-- `set_bit_position [i]` -/
def setBitPosition (i : Nat) : Except Fault (List Nat) :=
  fillSetBitPosition i 16 (setBitCount i) (List.replicate 16 0)

/-- `calSetBitsNum` -/
def calSetBitsNum (b : AlacBitmap) : UInt64 :=
  b.words.foldl (fun total word =>
    total + UInt64.ofNat (((List.range 8).map fun k =>
      bitsInChar (word.toNat / 2 ^ (8 * k) % 256)).sum)) 0

/-! ## Points -/

def initLastConvRid (b : AlacBitmap) : AlacBitmap := { b with lastConvRid := b.realElmSize + 1 }

def isLastConvRidInit (b : AlacBitmap) : Bool := b.lastConvRid = b.realElmSize + 1

/-- The remainders of a loop of `ridToCoordinates`. -/
def ridRemainders : List UInt64 → UInt64 → Except Fault (List UInt64)
  | [], _ => .ok []
  | d :: dims, remain => do
    if d = 0 then .error .divisionByZero
    else
      let rest ← ridRemainders dims (remain / d)
      return remain % d :: rest

/-- `ridToCoordinates`: the last dimension is the fastest in C order, the first in Fortran order. -/
def ridToCoordinates (corder : Bool) (rid : Rid) (dimSize : List UInt64) :
    Except Fault (List UInt64) :=
  if corder then do
    let coordinates ← ridRemainders dimSize.reverse rid.toUInt64
    return coordinates.reverse
  else ridRemainders dimSize rid.toUInt64

/-- The elements whose bits are set in the 16 bits `temp [j]` of the word at `off`. -/
def ridsOfQuarter (off : Nat) (word : UInt64) (j : Nat) : Except Fault (List UInt64) := do
  let temp := word.toNat / 2 ^ (16 * j) % 2 ^ 16
  let row ← setBitPosition temp
  return (row.take (setBitCount temp)).map fun position =>
    UInt64.ofNat (off * 64 + j * 16 + position)

/-- The elements whose bits are set, from the word at `off` on, in the order of the loops. -/
def ridsFrom : Nat → List UInt64 → Except Fault (List UInt64)
  | _, [] => .ok []
  | off, word :: words => do
    let quarters ← (List.range 4).mapM (ridsOfQuarter off word)
    let rest ← ridsFrom (off + 1) words
    return quarters.flatten ++ rest

/-- What a call of `adios_query_alac_retrieval_pointsNd` looks at. `capacity` is the number of
coordinates that `points` has room for. -/
structure Retrieval where
  b : AlacBitmap
  corder : Bool
  bb : BoundingBox
  capacity : Nat

def emitPoint (r : Retrieval) (rid : UInt64) (points : List (List UInt64)) :
    Except Fault (List (List UInt64)) := do
  if maxDims < r.bb.count.length ∨ r.capacity < r.bb.count.length * (points.length + 1) then
    .error .outOfBounds
  else
    let coordinates ← ridToCoordinates r.corder rid.toUInt32 r.bb.count
    return points ++ [List.zipWith (· + ·) r.bb.start coordinates]

/-- The loop over the elements: elements that were returned before are skipped. It ends early when
`points` has `retrievalSize` points. -/
def retrievePoints (r : Retrieval) (retrievalSize : UInt64) :
    List UInt64 → List (List UInt64) → Except Fault (List (List UInt64) × AlacBitmap)
  | [], points => .ok (points, r.b)
  | rid :: rids, points => do
    let points ← if isLastConvRidInit r.b ∨ r.b.lastConvRid < rid then emitPoint r rid points
      else .ok points
    if UInt64.ofNat points.length = retrievalSize then
      return (points, { r.b with lastConvRid := rid })
    else retrievePoints r retrievalSize rids points

/-- `adios_query_alac_retrieval_pointsNd` -/
def retrievalPointsNd (r : Retrieval) (retrievalSize : UInt64) :
    Except Fault (List (List UInt64) × AlacBitmap) := do
  let startPos := if isLastConvRidInit r.b then 0 else (r.b.lastConvRid / 64).toNat
  let rids ← ridsFrom startPos (r.b.words.drop startPos)
  retrievePoints r retrievalSize rids []

/-- `adios_query_build_results_boundingbox` -/
def buildResultsBoundingBox (corder : Bool) (bb : BoundingBox) (b : AlacBitmap)
    (retrievalSize : UInt64) : Except Fault (List (List UInt64) × AlacBitmap) :=
  let dataSize := retrievalSize * UInt64.ofNat bb.count.length
  let allocated := dataSize * 8
  retrievalPointsNd ⟨b, corder, bb, allocated.toNat / 8⟩ retrievalSize

/-! ## Batches -/

/-- `convertALACBitmapTomemstream`: the words of the block of memory. -/
def convertAlacBitmapToMemstream (b : AlacBitmap) : List UInt64 :=
  [b.length, b.numSetBits, b.realElmSize, b.lastConvRid] ++ b.words

/-- `convertMemstreamToALACBitmap` -/
def convertMemstreamToAlacBitmap (mem : Option (List UInt64)) : Except Fault AlacBitmap :=
  match mem with
  | none => .error .wildPointer
  | some (length :: numSetBits :: realElmSize :: lastConvRid :: bits) =>
    if length.toNat ≤ bits.length then
      .ok ⟨bits.take length.toNat, length, numSetBits, realElmSize, lastConvRid⟩
    else .error .outOfBounds
  | some _ => .error .outOfBounds

/-- The fields of `ADIOS_QUERY` that the evaluation keeps between two calls. -/
structure AlacQuery where
  onTimeStep : Int
  maxResultsDesired : UInt64
  resultsReadSoFar : UInt64
  queryInternal : Option (List UInt64)
  deriving DecidableEq, Repr

/-- The bitmap at the beginning of a call: that of `adios_alac_process` for a new time step, or the
one that the last call left. -/
def openBitmap (process : AlacBitmap) (absoluteTimestep : Int) (q : AlacQuery) :
    Except Fault (AlacBitmap × AlacQuery) :=
  if q.onTimeStep ≠ absoluteTimestep then
    let b := initLastConvRid process
    .ok (b, { q with
      maxResultsDesired := calSetBitsNum b
      resultsReadSoFar := 0
      onTimeStep := absoluteTimestep })
  else do
    let b ← convertMemstreamToAlacBitmap q.queryInternal
    return (b, q)

/-- `adios_query_alac_evaluate` for a bounding box: the value that it returns, `*queryResult`, and
the query. `process` is the bitmap that `adios_alac_process` computes. -/
def queryAlacEvaluate (corder : Bool) (process : AlacBitmap) (absoluteTimestep : Int)
    (bb : BoundingBox) (batchSize : UInt64) (q : AlacQuery) :
    Except Fault (Bool × Option (List (List UInt64)) × AlacQuery) := do
  let (b, q) ← openBitmap process absoluteTimestep q
  let retrievalSize := q.maxResultsDesired - q.resultsReadSoFar
  if retrievalSize = 0 then return (false, none, q)
  else
    let retrievalSize := if retrievalSize > batchSize then batchSize else retrievalSize
    let (points, b) ← buildResultsBoundingBox corder bb b retrievalSize
    let resultsReadSoFar := q.resultsReadSoFar + retrievalSize
    return (resultsReadSoFar < q.maxResultsDesired, some points,
      { q with
        queryInternal := some (convertAlacBitmapToMemstream b)
        resultsReadSoFar := resultsReadSoFar })

def queryAlacEvaluateAll (corder : Bool) (process : AlacBitmap) (absoluteTimestep : Int)
    (bb : BoundingBox) : List UInt64 → AlacQuery →
    Except Fault (List (Bool × Option (List (List UInt64))))
  | [], _ => .ok []
  | batchSize :: batchSizes, q => do
    let (more, result, q) ← queryAlacEvaluate corder process absoluteTimestep bb batchSize q
    let rest ← queryAlacEvaluateAll corder process absoluteTimestep bb batchSizes q
    return (more, result) :: rest

end Adios
