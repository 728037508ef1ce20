import Adios.Types
import Adios.Heap.Laid
import Adios.Runs.Network

/-!
# MPI_AMR — how an aggregation group writes its process groups

`adios_mpi_amr_bg_close` and `adios_mpi_amr_ag_close` of `write/adios_mpi_amr.c`, as far as they put
the data of a group's members into the subfile. Each member holds one process group in its buffer,
and the first member is the aggregator. In the brigade a member passes on what it receives from the
next higher one; in the other strategy one `MPI_Gatherv` collects everything.

MPI messages between two members stay in order. A send may return at once or only when its message
has been received; which of these happens is for MPI to decide, message by message.
-/

namespace Adios.Amr

open Runs

inductive Failure where
  /-- "`return`" behind an `adios_error`. -/
  | returned
  /-- A negative count, or a message that is longer than the receive allows for. -/
  | mpiError
  | fault (f : Fault)
  deriving DecidableEq, Repr

/-- A number assigned to an `int`. -/
def toInt (n : Int) : Int := Int.bmod n 4294967296

/-- The sum of two `int`s. -/
def addInt (m n : Int) : Except Failure Int :=
  if -2147483648 ≤ m + n ∧ m + n ≤ 2147483647 then .ok (m + n)
  else .error (.fault .signedOverflow)

/-! ## Writing to the subfile -/

/-- `MAX_MPIWRITE_SIZE` -/
def maxMpiwriteSize : Nat := 2130706432

/-- The calls of `MPI_File_write`, each of which writes all it is given. -/
def fileWrites (offset : Int) (buf : List UInt8) : List (Heap.Write UInt8) :=
  if buf.length ≤ maxMpiwriteSize then [⟨offset, buf⟩]
  else ⟨offset, buf.take maxMpiwriteSize⟩ ::
    fileWrites (offset + maxMpiwriteSize) (buf.drop maxMpiwriteSize)
termination_by buf.length
decreasing_by
  rw [List.length_drop]
  have hmax : 0 < maxMpiwriteSize := by decide
  omega

/-- `MPI_File_get_position`: where the last write has ended. -/
def position (fh : List (Heap.Write UInt8)) : Int :=
  fh.getLast?.elim 0 fun w => w.addr + w.cells.length

/-- `adios_mpi_amr_striping_unit_write`; `fh` is what has been written to the file so far. -/
def stripingUnitWrite (fh : List (Heap.Write UInt8)) (offset : UInt64) (buf : List UInt8)
    (len : UInt64) : Except Failure (List (Heap.Write UInt8)) :=
  if len = 0 then .ok fh
  else if buf.length < len.toNat then .error (.fault .outOfBounds)
  else .ok (fh ++ fileWrites (if offset = UInt64.ofInt (-1) then position fh else offset.toNat)
    (buf.take len.toNat))

/-! ## The members of a group -/

structure Group where
  /-- The `bytes_written` bytes of each member's `fd->buffer`. -/
  buffers : List (List UInt8)
  /-- The aggregator's `fd->pg_start_in_file`. -/
  base : UInt64
  /-- The `buffer_offset` bytes of the index that the aggregator of the other strategy writes behind
  the data. -/
  index : List UInt8
  nonempty : buffers ≠ []
  /-- The subfile lies within what a file offset can address. -/
  fits : base.toNat + buffers.flatten.length + index.length < 9223372036854775808

/-- "`pg_size = fd->bytes_written`" at each member, as `MPI_Allgather` spreads them. -/
def Group.pgSizes (g : Group) : List Int := g.buffers.map fun b => toInt b.length

/-- What follows from "`disp[i] = disp[i - 1] + pg_sizes[i - 1]`": the displacements, and the total
size, from a displacement on. -/
def displacements (d : Int) : List Int → Except Failure (List Int × Int)
  | [] => .ok ([], d)
  | size :: sizes => do
    let next ← addInt d size
    let (ds, total) ← displacements next sizes
    .ok (d :: ds, total)

/-- `max_data_size` of a member with this `pg_size`. -/
def maxDataSize (pgSize : Int) (pgSizes : List Int) : Int :=
  pgSizes.tail.foldl (fun largest size => if size > largest then size else largest) pgSize

/-! ## The brigade -/

inductive Point where
  /-- At the head of the loop, with its variable. -/
  | loop (i : Nat)
  /-- The aggregator before its write. -/
  | write (i : Nat)
  | sendOwn (i : Nat)
  | sentOwn (i : Nat)
  /-- In `MPI_Wait`. -/
  | wait (i : Nat)
  | forward (i : Nat)
  | forwarded (i : Nat)
  | done
  | failed (f : Failure)
  deriving DecidableEq, Repr

structure Member where
  point : Point
  aggrBuff : List UInt8
  recvBuff : List UInt8
  /-- The count of the last `MPI_Irecv`. -/
  posted : Int
  indexStart1 : UInt64
  /-- What the aggregator has written to the subfile. -/
  written : List (Heap.Write UInt8)
  /-- The counts of the receives, each with the length of the message it matched. -/
  received : List (Int × Nat)

namespace Group

variable (g : Group)

def size : Nat := g.buffers.length

/-- `pg_sizes[i]` -/
def pgSize (i : Nat) : Int := g.pgSizes[i]?.getD 0

/-- `fd->buffer` -/
def buffer (r : Nat) : List UInt8 := g.buffers[r]?.getD []

/-- The `pg_size` bytes from the start of each buffer. -/
def messages : List (List UInt8) := g.buffers.zipWith (fun b size => b.take size.toNat) g.pgSizes

end Group

namespace Member

def goTo (s : Member) (p : Point) : Member := { s with point := p }

def fail (s : Member) (f : Failure) : Member := s.goTo (.failed f)

def overwrite (buf bytes : List UInt8) : List UInt8 := bytes ++ buf.drop bytes.length

end Member

open Member

section Program

variable (g : Group) (eager : Nat → Nat → Bool)

/-- `MPI_Irecv` with a count, before going on at `p`. -/
def irecv (s : Member) (count : Int) (p : Point) : Member :=
  if count < 0 then s.fail .mpiError
  else if s.recvBuff.length < count.toNat then s.fail (.fault .outOfBounds)
  else { s with posted := count, point := p }

/-- What `MPI_Wait` does with the message for the receive. -/
def received (s : Member) (m : List UInt8) : Except Failure Member :=
  if s.posted < m.length then .error .mpiError
  else .ok { s with
    recvBuff := overwrite s.recvBuff m
    received := s.received ++ [(s.posted, m.length)] }

/-- The aggregator after `MPI_Wait`: "`memcpy (aggr_buff, recv_buff, pg_sizes[i + 1])`". -/
def aggregatorReceived (i : Nat) (s : Member) (m : List UInt8) : Member :=
  match received s m with
  | .error f => s.fail f
  | .ok s =>
    if s.aggrBuff.length < (g.pgSize (i + 1)).toNat then s.fail (.fault .outOfBounds)
    else { s with
      aggrBuff := overwrite s.aggrBuff (s.recvBuff.take (g.pgSize (i + 1)).toNat)
      point := .loop (i + 1) }

/-- "`adios_mpi_amr_do_write_thread ((void *) &write_thread_data)`" and
"`index_start1 += pg_sizes[i]`". -/
def aggregatorWrite (i : Nat) (s : Member) : Member :=
  match stripingUnitWrite s.written s.indexStart1 (if i = 0 then g.buffer 0 else s.aggrBuff)
      (UInt64.ofInt (g.pgSize i)) with
  | .error f => s.fail f
  | .ok written =>
    { s with
      written := written
      indexStart1 := s.indexStart1 + UInt64.ofInt (g.pgSize i)
      point := if i + 1 < g.size then .wait i else .loop (i + 1) }

def aggregator (s : Member) : Action Nat Member (List UInt8) :=
  match s.point with
  | .loop i =>
    if i < g.size then
      if i + 1 < g.size then .step (irecv s (g.pgSize (i + 1)) (.write i))
      else .step (s.goTo (.write i))
    else .step (s.goTo .done)
  | .write i => .step (aggregatorWrite g i s)
  | .wait i => .recv 1 (aggregatorReceived g i s)
  | _ => .stop

/-- "`MPI_Send (buf, count, MPI_BYTE, new_rank - 1, …)`" -/
def send (r : Nat) (s : Member) (buf : List UInt8) (count : Int) (p : Point) :
    Action Nat Member (List UInt8) :=
  if count < 0 then .step (s.fail .mpiError)
  else if buf.length < count.toNat then .step (s.fail (.fault .outOfBounds))
  else .send (r - 1) (buf.take count.toNat) (s.goTo p)

def sent (r : Nat) (i : Nat) (s : Member) (p : Point) : Action Nat Member (List UInt8) :=
  if eager r i then .step (s.goTo p) else .drain (r - 1) (s.goTo p)

/-- A member in between after `MPI_Wait`. -/
def forwarderReceived (i : Nat) (s : Member) (m : List UInt8) : Member :=
  match received s m with
  | .error f => s.fail f
  | .ok s => s.goTo (.forward i)

def forwarder (r : Nat) (s : Member) : Action Nat Member (List UInt8) :=
  match s.point with
  | .loop i =>
    if i < g.size then
      .step (irecv s (g.pgSize i) (if i = r + 1 then .sendOwn i else .wait i))
    else .step (s.goTo .done)
  | .sendOwn i => send r s (g.buffer r) (g.pgSize r) (.sentOwn i)
  | .sentOwn i => sent eager r r s (.wait i)
  | .wait i => .recv (r + 1) (forwarderReceived i s)
  | .forward i => send r s s.recvBuff (g.pgSize i) (.forwarded i)
  | .forwarded i => sent eager r i s (.loop (i + 1))
  | _ => .stop

def last (r : Nat) (s : Member) : Action Nat Member (List UInt8) :=
  match s.point with
  | .sendOwn i => send r s (g.buffer r) (g.pgSize r) (.sentOwn i)
  | .sentOwn _ => sent eager r r s .done
  | _ => .stop

def brigade (r : Nat) (s : Member) : Action Nat Member (List UInt8) :=
  if r = 0 then aggregator g s
  else if r + 1 = g.size then last g eager r s
  else forwarder g eager r s

/-- Where a member is behind the `MPI_Allgather`, the two loops over `pg_sizes` and the allocations,
of which those of a negative size fail. -/
def Group.firstPoint (r : Nat) : Point :=
  match displacements 0 g.pgSizes with
  | .error f => .failed f
  | .ok _ =>
    if maxDataSize (g.pgSize r) g.pgSizes < 0 then .failed .returned
    else if r = 0 then .loop 0
    else if r + 1 = g.size then .sendOwn g.size
    else .loop (r + 1)

/-- A member when the data are about to be moved. What is in a buffer that `malloc` has
returned is not defined; the zeros here stand for it. -/
def Group.member (r : Nat) : Member :=
  let fresh := List.replicate (maxDataSize (g.pgSize r) g.pgSizes).toNat 0
  { point := g.firstPoint r
    aggrBuff := fresh
    recvBuff := fresh
    posted := 0
    indexStart1 := g.base
    written := []
    received := [] }

def Group.absent : Member := { g.member 0 with point := .done }

def Group.start : Network Nat Member (List UInt8) where
  procs r := if r < g.size then g.member r else g.absent
  queue _ := []

end Program

/-- `MPI_Gatherv` at the root: each message at its displacement. -/
def gatherv (buf : List UInt8) : List (Int × List UInt8) → List UInt8
  | [] => buf
  | (d, m) :: rest => gatherv (buf.take d.toNat ++ m ++ buf.drop (d.toNat + m.length)) rest

/-- What the aggregator of `adios_mpi_amr_ag_close` writes. -/
def agClose (g : Group) : Except Failure (List (Heap.Write UInt8)) := do
  let (disp, totalDataSize) ← displacements 0 g.pgSizes
  if totalDataSize < 0 then .error .returned
  else if ∃ size ∈ g.pgSizes, size < 0 then .error .mpiError
  else
    let aggrBuff := gatherv (List.replicate totalDataSize.toNat 0) (disp.zip g.messages)
    -- "`int total_data_size1 = total_data_size + buffer_offset`"
    let totalDataSize1 := toInt (totalDataSize + g.index.length)
    stripingUnitWrite [] g.base (aggrBuff ++ g.index) (UInt64.ofInt totalDataSize1)

end Adios.Amr
