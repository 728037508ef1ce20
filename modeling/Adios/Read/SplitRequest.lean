import Adios.Core.PatchData
import Adios.Grid.Cuts
import Adios.Wire.Signed

/-!
# Adios — splitting a read request

`split_req` of `read_bp.c`: a request that does not fit into the buffer for chunks becomes several
that do, and `adios_read_bp_check_reads` puts them in its place. The loops go on as long as there is
fuel; a loop that never ends is out of it however much there is.
-/

namespace Adios.SplitRequest

open CopySubvolume PatchData Selections Subvolume

/-! ## The code -/

/-- `read_request` -/
structure ReadRequest where
  varid : Int
  sel : Selections.Selection
  fromSteps : Int
  nsteps : Int
  datasize : UInt64

/-- The digits of `n_elements` by the counts, the last one first, and what is left: "`pos[i] =
n_elements % sel->u.bb.count[i]`", "`n_elements /= sel->u.bb.count[i]`". -/
def posOf (nElements : UInt64) : List UInt64 → List UInt64 × UInt64
  | [] => ([], nElements)
  | count :: counts =>
    let (pos, n) := posOf nElements counts
    (n % count :: pos, n / count)

/-- "`while (j <= i && pos[j] == 0)`" and what follows it, for the positions and counts up to
`i`. -/
def leading : List (UInt64 × UInt64) → List UInt64
  | [] => []
  | (pos, _) :: dims => if pos = 0 then 0 :: leading dims else pos :: dims.map Prod.snd

/-- "`calculate sub-bounding-box`", for the dimensions below `i` with their positions and counts. -/
def subBox (dims : List (UInt64 × UInt64)) : Nat → List UInt64
  | 0 => []
  | i + 1 =>
    match dims[i]? with
    | some (pos, count) =>
      if pos ≠ count - 1 then leading (dims.take (i + 1)) else subBox dims i ++ [count]
    | none => []

/-- A dimension of the selection with `start` and `count` of the next request. -/
structure Dim where
  sel : Segment
  start : UInt64
  count : UInt64

/-- "`check whether the start + count will be out of bound`" -/
def nextDims : List Segment → List UInt64 → List UInt64 → List Dim
  | s :: sel, b :: subbb, a :: start =>
    ⟨s, a, if a + b > s.start + s.count then s.start + s.count - a else b⟩ ::
      nextDims sel subbb start
  | _, _, _ => []

/-- The loop that goes on to the next start, from the last dimension to the first: where it ends,
and if all dimensions are finished. -/
def advance : List Dim → List UInt64 × Bool
  | [] => ([], true)
  | d :: dims =>
    let (starts, finished) := advance dims
    if finished then
      if d.start + d.count = d.sel.start + d.sel.count then (d.sel.start :: starts, true)
      else ((d.start + d.count) :: starts, false)
    else (d.start :: starts, false)

def ReadRequest.withBox (r : ReadRequest) (typeSize : UInt64) (dims : List Dim) : ReadRequest :=
  { r with
    sel := .boundingBox (dims.map fun d => ⟨d.start, d.count⟩)
    datasize := (dims.map Dim.count).foldl (· * ·) typeSize }

/-- "`while (1)`" for a bounding box, with the list so far: a request is put in front of it. -/
def boxLoop (r : ReadRequest) (typeSize : UInt64) (sel : List Segment) (subbb : List UInt64) :
    Nat → List UInt64 → List ReadRequest → Except Fault (List ReadRequest)
  | 0, _, _ => .error .endless
  | fuel + 1, start, h =>
    let dims := nextDims sel subbb start
    let (start, done) := advance dims
    let h := r.withBox typeSize dims :: h
    if done then .ok h else boxLoop r typeSize sel subbb fuel start h

def ReadRequest.withPoints (r : ReadRequest) (typeSize : Nat) (pts : Points) (from' npoints : Nat) :
    ReadRequest :=
  { r with
    sel := .points ⟨pts.ndim, npoints,
      (pts.points.drop (from' * pts.ndim)).take (npoints * pts.ndim)⟩
    datasize := UInt64.ofNat (typeSize * npoints) }

/-- "`while (remain)`" for points. -/
def pointsLoop (r : ReadRequest) (typeSize : Nat) (pts : Points) (nElements : Nat) :
    Nat → Int → List ReadRequest → Except Fault (List ReadRequest)
  | 0, _, _ => .error .endless
  | fuel + 1, remain, h =>
    if remain = 0 then .ok h
    -- as a `uint64_t` the number of points is 2^63 or more, and so many are copied
    else if remain < 0 then .error .outOfBounds
    else
      let npoints := if remain > nElements then nElements else remain.toNat
      pointsLoop r typeSize pts nElements fuel (remain - nElements)
        (r.withPoints typeSize pts (pts.npoints - remain.toNat) npoints :: h)

/-- The arrays `pos`, `subbb`, `start` and `count` of `split_req`. -/
def maxDims : Nat := 32

/-- `split_req` -/
def splitReq (fuel : Nat) (r : ReadRequest) (type : Datatype) (bufferSize : Nat) :
    Except Fault (List ReadRequest) :=
  let typeSize := (bpGetTypeSize type).toNat
  let nElements := bufferSize / typeSize
  match r.sel with
  | .boundingBox bb =>
    if maxDims < bb.length then .error .outOfBounds
    -- "`pos[i] = n_elements % sel->u.bb.count[i]`"
    else if ∃ s ∈ bb, s.count = 0 then .error .divisionByZero
    else
      let counts := bb.map Segment.count
      let (pos, _) := posOf (UInt64.ofNat nElements) counts
      let subbb := subBox (pos.zip counts) bb.length
      boxLoop r (bpGetTypeSize type) bb subbb fuel (bb.map Segment.start) []
  | .points pts =>
    pointsLoop r typeSize pts nElements fuel (Wire.cut32 pts.npoints) []
  | .writeblock | .auto => .ok []

/-- What `adios_read_bp_check_reads` goes on with for a request without memory of the user: the
request itself, or those that it is split into, behind "`assert (subreqs)`". -/
def subreqs (fuel : Nat) (r : ReadRequest) (type : Datatype) (bufferSize : Nat) :
    Except Fault (List ReadRequest) := do
  if r.datasize.toNat ≤ bufferSize then return [r]
  else
    let subreqs ← splitReq fuel r type bufferSize
    if subreqs = [] then .error .assertion else return subreqs

end Adios.SplitRequest
