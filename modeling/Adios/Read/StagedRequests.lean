import Adios.Amr.GatherIndex
import Adios.Lists.Shares
import Adios.Wire.Parser
import Mathlib.Algebra.Ring.Nat

/-!
# Staged read — groups of processes and what a request looks like in a buffer

The groups that `init_read` makes, the buffer in which a process of a group sends its requests to
the aggregator, and `parse_buffer`, which takes them out of it.
-/

namespace Adios.Staged

open Wire Lists
open Amr (Failure toInt addInt)

structure Host where
  order : Endian
  /-- Whether `malloc (0)` returns a pointer: it may return `NULL` instead. -/
  mallocZero : Bool

/-- Whether `malloc` returns a pointer. No memory has the size that a negative `int` is as a
`size_t`. -/
def Host.Mallocs (host : Host) (size : Int) : Prop := 0 < size ∨ size = 0 ∧ host.mallocZero = true

instance (host : Host) (size : Int) : Decidable (host.Mallocs size) :=
  inferInstanceAs (Decidable (_ ∨ _))

/-! ## Groups -/

/-- What `init_read` leaves in `bp_proc_pvt_struct`. -/
structure Pvt where
  rank : Nat
  size : Nat
  groups : Nat
  groupSize : Nat
  group : Nat
  aggregatorRank : Nat
  aggregatorRankArray : List Nat

/-- `pvt->groups` -/
def groupCount (numAggregators : Int) (size : Nat) : Nat :=
  if numAggregators > size ∨ numAggregators ≤ 0 then size else numAggregators.toNat

/-- `aggregator_rank_array[i]` -/
def aggregatorRankOf (groupSize remain i : Nat) : Nat :=
  if remain = 0 then groupSize * i
  else if i < remain then (groupSize + 1) * i
  else remain * (groupSize + 1) + (i - remain) * groupSize

/-- `init_read` -/
def initRead (numAggregators : Int) (size rank : Nat) : Pvt :=
  let groups := groupCount numAggregators size
  let groupSize := size / groups
  let remain := size - groupSize * groups
  let aggregatorRankArray := (List.range groups).map (aggregatorRankOf groupSize remain)
  if remain = 0 then
    let color1 := rank / groupSize
    { rank, size, groups, groupSize, group := color1, aggregatorRank := color1 * groupSize,
      aggregatorRankArray }
  else if rank < (groupSize + 1) * remain then
    let color1 := rank / (groupSize + 1)
    { rank, size, groups, groupSize := groupSize + 1, group := color1,
      aggregatorRank := color1 * (groupSize + 1), aggregatorRankArray }
  else
    let color1 := remain + (rank - (groupSize + 1) * remain) / groupSize
    { rank, size, groups, groupSize, group := color1,
      aggregatorRank := remain * (groupSize + 1) + (color1 - remain) * groupSize,
      aggregatorRankArray }

/-- `rank_to_group_mapping` -/
def Pvt.rankToGroupMapping (pvt : Pvt) (rank : Nat) : Nat :=
  let grpSize := pvt.size / pvt.groups
  let remain := pvt.size - grpSize * pvt.groups
  if remain = 0 then rank / grpSize
  else if rank < (grpSize + 1) * remain then rank / (grpSize + 1)
  else remain + (rank - (grpSize + 1) * remain) / grpSize

/-- The ranks in `pvt->new_comm` of a color: "`MPI_Comm_split (fh->comm, color1, pvt->rank, …)`" -/
def newComm (numAggregators : Int) (size color : Nat) : List Nat :=
  (List.range size).filter fun rank => (initRead numAggregators size rank).group = color

/-! ## Requests -/

/-- A `read_request` for a bounding box: a start and a count for each dimension. -/
structure Request where
  varid : Int32
  fromSteps : Int32
  nsteps : Int32
  box : List (UInt64 × UInt64)
  datasize : UInt64
  deriving DecidableEq

/-- What `calc_data_size` adds for a request. -/
def Request.calcSize (r : Request) : Nat := 4 + 4 + 4 + 4 + r.box.length * (8 + 8) + 8 + 4 + 8

/-- `calc_data_size`. What is added for a request is an `int` if the sum is. -/
def calcDataSize : Int → List Request → Except Failure Int
  | size, [] => .ok size
  | size, h :: next => do
    let size ← addInt size h.calcSize
    calcDataSize size next

/-- What `buffer_write` writes for a request. -/
def Request.bytes (order : Endian) (r : Request) : List UInt8 :=
  order.u32 r.varid.toUInt32 ++ (order.u32 r.fromSteps.toUInt32 ++ (order.u32 r.nsteps.toUInt32 ++
    (order.u32 (UInt32.ofNat r.box.length) ++ ((r.box.map Prod.fst).flatMap order.u64 ++
      ((r.box.map Prod.snd).flatMap order.u64 ++ order.u64 r.datasize)))))

/-- `p->b` in `adios_read_bp_staged_perform_reads`; its length is `size`. What is in it behind the
requests is not defined; the zeros stand for it. -/
def pack (host : Host) (requests : List Request) : Except Failure (List UInt8) := do
  let size ← calcDataSize 4 requests
  let bytes := host.order.u32 (UInt32.ofNat requests.length) ++
    requests.flatMap (Request.bytes host.order)
  if size < bytes.length then .error (.fault .outOfBounds)
  else .ok (bytes ++ List.replicate (size.toNat - bytes.length) 0)

/-! ## The other side -/

/-- A request in the list of the aggregator: `rr_pvt->rank` is the rank it is from. -/
structure Entry where
  rank : Nat
  request : Request
  deriving DecidableEq

/-- "`* (uint32_t *) b`" -/
def readU32 (order : Endian) : Parser Fault UInt32 := do
  let bs ← Parser.take .outOfBounds 4
  return order.toU32 bs

def readU64 (order : Endian) : Parser Fault UInt64 := do
  let bs ← Parser.take .outOfBounds 8
  return order.toU64 bs

/-- "`memcpy (…, b, r->sel->u.bb.ndim * 8)`" -/
def readU64s (order : Endian) (ndim : Nat) : Parser Fault (List UInt64) := do
  let bs ← Parser.take .outOfBounds (8 * ndim)
  return order.u64s ndim bs

/-- The body of the loop of `parse_buffer`. -/
def parseRequest (host : Host) : Parser Fault Request := do
  let varid ← readU32 host.order
  let fromSteps ← readU32 host.order
  let nsteps ← readU32 host.order
  let ndim ← readU32 host.order
  -- "`malloc (r->sel->u.bb.ndim * 8)`" of an `int`, for each of the arrays
  Parser.require .signedOverflow (8 * ndim.toNat < 2147483648)
  Parser.require .assertion (host.Mallocs (8 * ndim.toNat : Nat))
  let start ← readU64s host.order ndim.toNat
  let count ← readU64s host.order ndim.toNat
  let datasize ← readU64 host.order
  -- "`assert (r->data)`"
  Parser.require .assertion (host.Mallocs datasize.toNat)
  return { varid := varid.toInt32, fromSteps := fromSteps.toInt32, nsteps := nsteps.toInt32,
           box := start.zip count, datasize }

/-- `parse_buffer`: what it puts at the end of the list. -/
def parseBuffer (host : Host) (src : Nat) : Parser Fault (List Entry) := do
  let count ← readU32 host.order
  Parser.loop count.toInt32.toInt.toNat
    (fun list => parseRequest host >>= fun r => pure (list ++ [⟨src, r⟩])) []

end Adios.Staged
